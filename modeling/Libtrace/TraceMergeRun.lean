import Libtrace.TraceMergeOrder

/-! Whole runs of `tracemerge`. The inputs are merged by their timestamps, `--unique-packets` and
`--set-interface` work on the merge packet by packet, and the output takes what it can. -/

namespace Libtrace.TraceMerge
open KWayMerge

variable {π : Type}

/-- The packets whose timestamp is not that of the one before, `last` being before the first. -/
def firsts (key : π → UInt64) : UInt64 → List (Nat × π) → List (Nat × π)
  | _, [] => []
  | last, x :: rest =>
    if key x.2 = last then firsts key last rest else x :: firsts key (key x.2) rest

/-- What is to be written of a merge behind a packet with the timestamp `last`. -/
def select (c : Calls π) (opts : Options) (last : UInt64) (merged : List (Nat × π)) :
    List (Nat × π) :=
  (if opts.uniquePackets then firsts c.getErfTimestamp last merged else merged).map fun x =>
    (x.1, setInterface c opts x.1 x.2)

/-- What the output has when the packets of a list were given to it, up to a failure. -/
def kept (c : Calls π) : List (Nat × π) → List (Nat × π) → List (Nat × π)
  | written, [] => written
  | written, x :: rest =>
    match c.writePacket written x.2 with
    | .failed => written
    | .dropped => kept c written rest
    | .appended => kept c (written ++ [x]) rest

section

variable (c : Calls π) (opts : Options) (last : UInt64) (x : Nat × π)
  (written rest : List (Nat × π))

theorem select_nil : select c opts last [] = [] := by
  rw [select, firsts, ite_self]
  rfl

theorem select_cons :
    select c opts last (x :: rest) =
      if opts.uniquePackets = true ∧ c.getErfTimestamp x.2 = last then select c opts last rest
      else (x.1, setInterface c opts x.1 x.2) :: select c opts (c.getErfTimestamp x.2) rest := by
  rw [select, select, select]
  cases opts.uniquePackets with
  | false => simp
  | true =>
    rw [if_pos rfl, if_pos rfl, if_pos rfl, firsts]
    by_cases hx : c.getErfTimestamp x.2 = last <;> simp [hx]

theorem kept_sublist : ∃ later, kept c written rest = written ++ later ∧ later.Sublist rest := by
  induction rest generalizing written with
  | nil => exact ⟨[], (List.append_nil _).symm, List.Sublist.refl _⟩
  | cons x rest ih =>
    rw [kept]
    cases c.writePacket written x.2 with
    | failed => exact ⟨[], (List.append_nil _).symm, List.nil_sublist _⟩
    | dropped =>
      obtain ⟨later, hkept, hsub⟩ := ih written
      exact ⟨later, hkept, hsub.cons x⟩
    | appended =>
      obtain ⟨later, hkept, hsub⟩ := ih (written ++ [x])
      refine ⟨x :: later, ?_, hsub.cons_cons x⟩
      rw [← List.append_cons] at hkept
      exact hkept

theorem kept_all (h : ∀ x ∈ rest, ∀ w, c.writePacket w x.2 = .appended) :
    kept c written rest = written ++ rest := by
  induction rest generalizing written with
  | nil => exact (List.append_nil _).symm
  | cons x rest ih =>
    rw [kept, h x List.mem_cons_self, List.append_cons written x rest]
    exact ih _ fun y hy => h y (List.mem_cons_of_mem x hy)

end

section

variable {c : Calls π} {opts : Options} {s : State π} {queues : List (List π)}
  {inputs : Nat → List π} {out : List (Nat × π)}

theorem mainLoop_select {fuel : Nat} (hfuel : queues.flatten.length < fuel) (n : Nat)
    (hfeeds : Feeds s.slots queues)
    (hmerging : Merging c.getErfTimestamp inputs (fun i => queues.getD i []) out) :
    ∃ rest, StableMerge c.getErfTimestamp inputs (out ++ rest) ∧
      mainLoop c opts (fun _ => false) fuel n s =
        some (kept c s.written (select c opts s.lastTs rest)) := by
  induction fuel generalizing n s queues out with
  | zero => exact absurd hfuel (Nat.not_lt_zero _)
  | succ fuel ih =>
    rw [mainLoop, if_neg Bool.false_ne_true]
    dsimp only
    cases hscan : (scan c 0 none s.slots).2 with
    | none =>
      refine ⟨[], ?_, by rw [select_nil, kept]⟩
      rw [List.append_nil]
      exact hmerging.finish (mainLoop_last hfeeds hscan)
    | some o =>
      dsimp only
      obtain ⟨rest, hrest, hfeeds', hmerging'⟩ :=
        mainLoop_take (s := ⟨s.slots, 0, out⟩) hfeeds hmerging hscan
      have hless := flatten_length_set hrest
      obtain ⟨-, hts, -⟩ : IsOldest c _ (some o) := hscan ▸ scan_oldest hfeeds
      -- the rest of the run, whatever is in the output and whichever timestamp was last
      have hnext (last : UInt64) (written : List (Nat × π)) :
          ∃ rest, StableMerge c.getErfTimestamp inputs (out ++ (o.index, o.packet) :: rest) ∧
            mainLoop c opts (fun _ => false) fuel (n + 1)
                ⟨release o.index (scan c 0 none s.slots).1, last, written⟩ =
              some (kept c written (select c opts last rest)) := by
        obtain ⟨rest, hmerge, hrun⟩ :=
          ih (s := ⟨_, last, written⟩) (by omega) (n + 1) hfeeds' hmerging'
        rw [← List.append_cons] at hmerge
        exact ⟨rest, hmerge, hrun⟩
      by_cases hskip : opts.uniquePackets = true ∧ o.ts = s.lastTs
      · obtain ⟨rest, hmerge, hrun⟩ := hnext s.lastTs s.written
        refine ⟨_, hmerge, ?_⟩
        rw [if_pos (by simpa using hskip), select_cons, if_pos (hts ▸ hskip)]
        exact hrun
      · rw [if_neg (by simpa using hskip)]
        have hselect (rest : List (Nat × π)) :
            select c opts s.lastTs ((o.index, o.packet) :: rest) =
              (o.index, setInterface c opts o.index o.packet) :: select c opts o.ts rest := by
          rw [select_cons, if_neg (hts ▸ hskip), hts]
        cases hwrite : c.writePacket s.written (setInterface c opts o.index o.packet) with
        | failed =>
          obtain ⟨rest, hmerge, -⟩ := hnext o.ts s.written
          exact ⟨_, hmerge, by rw [hselect, kept, hwrite]⟩
        | dropped =>
          obtain ⟨rest, hmerge, hrun⟩ := hnext o.ts s.written
          exact ⟨_, hmerge, by rw [hselect, kept, hwrite]; exact hrun⟩
        | appended =>
          obtain ⟨rest, hmerge, hrun⟩ :=
            hnext o.ts (s.written ++ [(o.index, setInterface c opts o.index o.packet)])
          exact ⟨_, hmerge, by rw [hselect, kept, hwrite]; exact hrun⟩

theorem main_run (c : Calls π) (opts : Options) {inputs : List (List π)}
    (hsorted : ∀ xs ∈ inputs, xs.Pairwise fun x y => c.getErfTimestamp x ≤ c.getErfTimestamp y)
    {fuel : Nat} (hfuel : inputs.flatten.length < fuel) :
    ∃ merged, StableMerge c.getErfTimestamp (fun i => inputs.getD i []) merged ∧
      main c opts (fun _ => false) fuel (inputs.map fun xs => xs.map Reading.packet) =
        some (kept c [] (select c opts 0 merged)) := by
  refine mainLoop_select (s := ⟨_, 0, []⟩) hfuel 0 (feeds_open inputs) (merging_start fun i => ?_)
  rw [List.getD_eq_getElem?_getD]
  cases hi : inputs[i]? with
  | none => exact List.Pairwise.nil
  | some xs => exact hsorted xs (List.mem_of_getElem? hi)

end

def plain : Options := ⟨0, false⟩

theorem select_plain (c : Calls π) (merged : List (Nat × π)) :
    select c plain 0 merged = merged := by
  have hsame (x : Nat × π) : (x.1, setInterface c plain x.1 x.2) = x :=
    congrArg (Prod.mk x.1) (if_neg fun h => h.2 rfl)
  exact (List.map_congr_left fun x _ => hsame x).trans (List.map_id _)

/-- For inputs whose timestamps do not decrease the run ends, and the output has what it took of the
merge of all inputs. That is all of it if no packet is dropped and no write fails. -/
theorem main_merges (c : Calls π) (inputs : List (List π))
    (hsorted : ∀ xs ∈ inputs, xs.Pairwise fun x y => c.getErfTimestamp x ≤ c.getErfTimestamp y)
    (fuel : Nat) (hfuel : inputs.flatten.length < fuel) :
    ∃ merged, StableMerge c.getErfTimestamp (fun i => inputs.getD i []) merged ∧
      main c plain (fun _ => false) fuel (inputs.map fun xs => xs.map Reading.packet) =
        some (kept c [] merged) ∧
      (kept c [] merged).Sublist merged ∧
      ((∀ x ∈ merged, ∀ w, c.writePacket w x.2 = .appended) → kept c [] merged = merged) := by
  obtain ⟨merged, hmerged, hrun⟩ := main_run c plain hsorted hfuel
  rw [select_plain] at hrun
  obtain ⟨later, hlater, hsub⟩ := kept_sublist c [] merged
  exact ⟨merged, hmerged, hrun, hlater ▸ hsub, kept_all c [] merged⟩

def stamps : Calls UInt64 := ⟨id, fun _ => -1, fun p _ => p, fun _ _ => .appended⟩

theorem main_merges_three :
    main stamps plain (fun _ => false) 6
        ([[1, 3, 3], [], [1, 2]].map fun xs => xs.map Reading.packet) =
      some [(0, 1), (2, 1), (2, 2), (0, 3), (0, 3)] ∧
    StableMerge id (fun i => [[1, 3, 3], [], [1, 2]].getD i [])
      [(0, (1 : UInt64)), (2, 1), (2, 2), (0, 3), (0, 3)] := by
  have hwritten : main stamps plain (fun _ => false) 6
      ([[1, 3, 3], [], [1, 2]].map fun xs => xs.map Reading.packet) =
        some [(0, 1), (2, 1), (2, 2), (0, 3), (0, 3)] := by decide
  refine ⟨hwritten, ?_⟩
  obtain ⟨merged, hmerged, hrun, -, hall⟩ :=
    main_merges stamps [[1, 3, 3], [], [1, 2]] (by decide) 6 (by decide)
  rw [hall fun _ _ _ => rfl] at hrun
  obtain rfl := Option.mem_unique hwritten hrun
  exact hmerged

/-- All packets are of an unknown link type. -/
def unknownLinks : Calls UInt64 := { stamps with writePacket := fun _ _ => .dropped }

theorem main_drops :
    main unknownLinks plain (fun _ => false) 3 ([[1, 2]].map fun xs => xs.map Reading.packet) =
      some [] := by
  decide

/-- With any options, the output has what it took of what the options select of the merge of all
inputs. `last_ts` is 0 at first, and so no timestamp. -/
theorem main_selects (c : Calls π) (opts : Options) (inputs : List (List π))
    (hsorted : ∀ xs ∈ inputs, xs.Pairwise fun x y => c.getErfTimestamp x ≤ c.getErfTimestamp y)
    (fuel : Nat) (hfuel : inputs.flatten.length < fuel) :
    ∃ merged, StableMerge c.getErfTimestamp (fun i => inputs.getD i []) merged ∧
      main c opts (fun _ => false) fuel (inputs.map fun xs => xs.map Reading.packet) =
        some (kept c [] (select c opts 0 merged)) ∧
      ((∀ x ∈ select c opts 0 merged, ∀ w, c.writePacket w x.2 = .appended) →
        kept c [] (select c opts 0 merged) = select c opts 0 merged) := by
  obtain ⟨merged, hmerged, hrun⟩ := main_run c opts hsorted hfuel
  exact ⟨merged, hmerged, hrun, kept_all c [] _⟩

theorem main_selects_unique :
    ∃ merged, StableMerge id (fun i => [[1, 3, 3], [], [1, 2]].getD i []) merged ∧
      main stamps ⟨2, true⟩ (fun _ => false) 6
          ([[1, 3, 3], [], [1, 2]].map fun xs => xs.map Reading.packet) =
        some (select stamps ⟨2, true⟩ 0 merged) := by
  obtain ⟨merged, hmerged, hrun, hall⟩ :=
    main_selects stamps ⟨2, true⟩ [[1, 3, 3], [], [1, 2]] (by decide) 6 (by decide)
  rw [hall fun _ _ _ => rfl] at hrun
  exact ⟨merged, hmerged, hrun⟩

end Libtrace.TraceMerge
