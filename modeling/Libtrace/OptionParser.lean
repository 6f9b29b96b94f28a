import Libtrace.Iteration
import Libtrace.PrefixCode
import Libtrace.Protocols

/-! `trace_get_next_option` on the options of an IPv4 or TCP header, against the grammar of
options. -/

namespace Libtrace.OptionParser
open Protocols Iteration PrefixCode

section

/-- The variables of the caller: `ptr`, `len`, `type`, `optlen` and `data`. -/
structure Cursor where
  ptr : Nat
  len : Int
  type : Nat
  optlen : Nat
  data : Nat
  deriving DecidableEq, Repr

def getNextOption (m : Memory) (c : Cursor) : Decode (Bool × Cursor) :=
  if c.len ≤ 0 then .ok (false, c)
  else do
    let type ← byte m c.ptr
    let c := { c with type := type }
    if type = 0 then return (false, c)
    else if type = 1 then return (true, { c with ptr := c.ptr + 1, len := c.len - 1 })
    else
      let optlen ← byte m (c.ptr + 1)
      let c := { c with optlen := optlen }
      if optlen < 2 then return (false, c)
      else if (optlen : Int) > c.len then return (false, c)
      else
        let c := { c with len := c.len - optlen, data := c.ptr + 2, ptr := c.ptr + optlen }
        if c.len < 0 then return (false, c)
        else return (true, c)

def optionMemory (buffer : List UInt8) (behind : UInt8) : Memory :=
  fun i => (buffer ++ [behind])[i]?

def options (m : Memory) : Nat → Cursor → Decode (List Cursor × Bool × Cursor) :=
  iterate (getNextOption m) (· = true) .unfinished

end

section

inductive Item where
  | pad
  | option (type : UInt8) (data : List UInt8) (htype : 1 < type) (hdata : data.length + 2 < 256)

def encode : Item → List UInt8
  | .pad => [1]
  | .option type data _ _ => type :: UInt8.ofNat (data.length + 2) :: data

def Cursor.past (c : Cursor) : Item → Cursor
  | .pad => { c with ptr := c.ptr + 1, len := c.len - 1, type := 1 }
  | .option type data _ _ =>
    ⟨c.ptr + (data.length + 2), c.len - (data.length + 2 : Nat), type.toNat, data.length + 2,
      c.ptr + 2⟩

def Cursor.trail (c : Cursor) : List Item → List Cursor
  | [] => []
  | item :: items => c.past item :: (c.past item).trail items

def Names (buffer : List UInt8) (item : Item) (c : Cursor) : Prop :=
  match item with
  | .pad => c.type = 1
  | .option type data _ _ =>
    c.type = type.toNat ∧ c.optlen = data.length + 2 ∧ c.data + data.length ≤ buffer.length ∧
      (buffer.drop c.data).take data.length = data

theorem encode_code : Code encode where
  ne_nil item := by cases item <;> simp [encode]
  free a b t u h := by
    cases a with
    | pad =>
      cases b with
      | pad => rfl
      | option type data htype hdata =>
        obtain ⟨rfl, -⟩ := List.cons.inj h
        exact absurd htype (by decide)
    | option type data htype hdata =>
      cases b with
      | pad =>
        obtain ⟨rfl, -⟩ := List.cons.inj h
        exact absurd htype (by decide)
      | option type' data' htype' hdata' =>
        simp only [encode, List.cons_append, List.cons.injEq] at h
        obtain ⟨rfl, hlength, hrest⟩ := h
        have hlength : data.length = data'.length := by
          have := congrArg UInt8.toNat hlength
          simp only [UInt8.toNat_ofNat'] at this
          omega
        obtain rfl := List.append_inj_left hrest hlength
        rfl

end

section

variable (before : List UInt8) (behind : UInt8) {rest tail : List UInt8} {c : Cursor} {item : Item}

theorem byte_optionMemory {buffer : List UInt8} {behind : UInt8} {i : Nat} {b : UInt8}
    (h : (buffer ++ [behind])[i]? = some b) :
    byte (optionMemory buffer behind) i = .ok b.toNat := by
  rw [byte, optionMemory, h]

theorem getNextOption_option {m : Memory} {type optlen : Nat} (hpos : ¬ c.len ≤ 0)
    (hfirst : byte m c.ptr = .ok type) (htype : 1 < type)
    (hsecond : byte m (c.ptr + 1) = .ok optlen) :
    getNextOption m c =
      if optlen < 2 ∨ (optlen : Int) > c.len then
        .ok (false, { c with type := type, optlen := optlen })
      else .ok (true, ⟨c.ptr + optlen, c.len - optlen, type, optlen, c.ptr + 2⟩) := by
  have hzero : type ≠ 0 := by omega
  have hone : type ≠ 1 := by omega
  rw [getNextOption, if_neg hpos, hfirst]
  change (if type = 0 then _ else if type = 1 then _ else byte m (c.ptr + 1) >>= _) = _
  rw [if_neg hzero, if_neg hone, hsecond]
  change (if optlen < 2 then _ else if (optlen : Int) > c.len then _ else _) = _
  by_cases hshort : optlen < 2
  · rw [if_pos hshort, if_pos (.inl hshort)]
    rfl
  · by_cases hlong : (optlen : Int) > c.len
    · rw [if_neg hshort, if_pos hlong, if_pos (.inr hlong)]
      rfl
    · have hrest : ¬ c.len - optlen < 0 := by omega
      rw [if_neg hshort, if_neg hlong, if_neg hrest]
      exact (if_neg (by omega)).symm

theorem getNextOption_item (hptr : c.ptr = before.length)
    (hlen : c.len = (encode item ++ tail).length) :
    getNextOption (optionMemory (before ++ (encode item ++ tail)) behind) c =
      .ok (true, c.past item) := by
  have hpos : ¬ c.len ≤ 0 := by
    have := encode_code.length_pos item
    rw [hlen, List.length_append]
    omega
  cases item with
  | pad =>
    have hfirst : byte (optionMemory (before ++ (encode .pad ++ tail)) behind) c.ptr = .ok 1 :=
      byte_optionMemory (b := 1) (by simp [hptr, encode])
    rw [getNextOption, if_neg hpos, hfirst]
    rfl
  | option type data htype hdata =>
    have htype' : 1 < type.toNat := htype
    have hlength : (UInt8.ofNat (data.length + 2)).toNat = data.length + 2 := by
      rw [UInt8.toNat_ofNat']
      omega
    have hsecond : byte (optionMemory (before ++ (encode (.option type data htype hdata) ++ tail))
        behind) (c.ptr + 1) = .ok (data.length + 2) := by
      rw [← hlength]
      exact byte_optionMemory (by simp [hptr, encode])
    rw [getNextOption_option hpos (byte_optionMemory (b := type) (by simp [hptr, encode])) htype'
      hsecond]
    rw [encode, List.length_append, List.length_cons, List.length_cons] at hlen
    exact if_neg (by omega)

theorem getNextOption_stops (hstop : Stops encode rest) (hptr : c.ptr = before.length)
    (hlen : c.len = rest.length) :
    ∃ c', getNextOption (optionMemory (before ++ rest) behind) c = .ok (false, c') := by
  cases rest with
  | nil => exact ⟨c, if_pos (by simp [hlen])⟩
  | cons type tail =>
    have hpos : ¬ c.len ≤ 0 := by
      rw [hlen, List.length_cons]
      omega
    have hfirst : byte (optionMemory (before ++ type :: tail) behind) c.ptr = .ok type.toNat :=
      byte_optionMemory (by simp [hptr])
    have hone : type ≠ 1 := by
      rintro rfl
      exact hstop .pad tail rfl
    by_cases hzero : type = 0
    · subst hzero
      refine ⟨{ c with type := 0 }, ?_⟩
      rw [getNextOption, if_neg hpos, hfirst]
      rfl
    · have htype : 1 < type.toNat := by
        have hzero' : type.toNat ≠ 0 := fun h => hzero (UInt8.toNat_inj.mp h)
        have hone' : type.toNat ≠ 1 := fun h => hone (UInt8.toNat_inj.mp h)
        omega
      obtain ⟨optlen, hoptlen⟩ : ∃ b, (tail ++ [behind])[0]? = some b := by
        cases tail with
        | nil => exact ⟨behind, rfl⟩
        | cons b tail => exact ⟨b, rfl⟩
      have hsecond : byte (optionMemory (before ++ type :: tail) behind) (c.ptr + 1) =
          .ok optlen.toNat := by
        refine byte_optionMemory ?_
        rw [← hoptlen]
        simp [hptr]
      rw [getNextOption_option hpos hfirst htype hsecond]
      refine ⟨_, if_pos ?_⟩
      -- a length that fits would make an item
      by_contra hfits
      rw [hlen, List.length_cons] at hfits
      cases tail with
      | nil =>
        rw [List.length_nil] at hfits
        omega
      | cons b data =>
        obtain rfl : b = optlen := Option.some.inj hoptlen
        have hbound := b.toNat_lt
        have hdata : (data.take (b.toNat - 2)).length = b.toNat - 2 := by
          rw [List.length_cons] at hfits
          rw [List.length_take]
          omega
        refine hstop (.option type (data.take (b.toNat - 2)) htype (by omega))
          (data.drop (b.toNat - 2)) ?_
        simp only [encode, hdata, List.cons_append, List.take_append_drop,
          Nat.sub_add_cancel (show 2 ≤ b.toNat by omega), UInt8.ofNat_toNat]

end

section

variable (before : List UInt8) (behind : UInt8) {rest : List UInt8} {c : Cursor}

theorem past_ptr (c : Cursor) (item : Item) : (c.past item).ptr = c.ptr + (encode item).length := by
  cases item <;> rfl

theorem past_len (c : Cursor) (item : Item) : (c.past item).len = c.len - (encode item).length := by
  cases item <;> rfl

theorem options_trail (hstop : Stops encode rest) (items : List Item) (fuel : Nat)
    (hptr : c.ptr = before.length) (hlen : c.len = (items.flatMap encode ++ rest).length) :
    ∃ last, options (optionMemory (before ++ (items.flatMap encode ++ rest)) behind)
      (items.length + 1 + fuel) c = .ok (c.trail items, false, last) := by
  induction items generalizing before c with
  | nil =>
    obtain ⟨last, hlast⟩ := getNextOption_stops before behind hstop hptr hlen
    refine ⟨last, ?_⟩
    rw [List.length_nil, Nat.zero_add, Nat.add_comm]
    exact iterate_last fuel hlast (by decide)
  | cons item items ih =>
    rw [List.flatMap_cons, List.append_assoc] at hlen ⊢
    have hcall := getNextOption_item before behind hptr hlen
    rw [List.length_append] at hlen
    have hmore := ih (before ++ encode item) (c := c.past item)
      (by rw [past_ptr, hptr, List.length_append]) (by rw [past_len, hlen]; omega)
    rw [List.append_assoc] at hmore
    obtain ⟨last, hlast⟩ := hmore
    have hfuel : (item :: items).length + 1 + fuel = items.length + 1 + fuel + 1 := by
      rw [List.length_cons]
      omega
    refine ⟨last, ?_⟩
    rw [hfuel, options, iterate_more _ hcall (by rfl)]
    rw [options] at hlast
    rw [hlast]
    rfl

theorem trail_chain (c : Cursor) (items : List Item) :
    (c :: c.trail items).IsChain fun c c' =>
      c.ptr < c'.ptr ∧ (c'.ptr : Int) - c.ptr = c.len - c'.len := by
  induction items generalizing c with
  | nil => exact .singleton c
  | cons item items ih =>
    have hpos := encode_code.length_pos item
    refine .cons_cons ⟨?_, ?_⟩ (ih (c.past item))
    · rw [past_ptr]
      omega
    · rw [past_ptr, past_len]
      omega

theorem trail_names (items : List Item) (hptr : c.ptr = before.length) :
    List.Forall₂ (Names (before ++ (items.flatMap encode ++ rest))) items (c.trail items) := by
  induction items generalizing before c with
  | nil => exact .nil
  | cons item items ih =>
    rw [List.flatMap_cons, List.append_assoc]
    refine .cons ?_ ?_
    · cases item with
      | pad => rfl
      | option type data htype hdata =>
        refine ⟨rfl, rfl, ?_, ?_⟩
        · simp [Cursor.past, hptr, encode]
          omega
        · have hdrop : List.drop (before.length + 2) before = [] :=
            List.drop_of_length_le (by omega)
          simp [Cursor.past, hptr, encode, List.drop_append, hdrop]
    · have hrest := ih (before ++ encode item) (c := c.past item)
        (by rw [past_ptr, hptr, List.length_append])
      rwa [List.append_assoc] at hrest

end

def start (buffer : List UInt8) (type optlen data : Nat) : Cursor :=
  ⟨0, buffer.length, type, optlen, data⟩

/-- The options of a buffer are parsed as far as its start splits into items, one by each call. -/
theorem options_parsed (buffer : List UInt8) (behind : UInt8) (type optlen data : Nat) :
    ∃ items rest last,
      options (optionMemory buffer behind) (buffer.length + 1) (start buffer type optlen data) =
        .ok ((start buffer type optlen data).trail items, false, last) ∧
      buffer = items.flatMap encode ++ rest ∧
      (∀ items' rest', buffer = items'.flatMap encode ++ rest' → items' <+: items) ∧
      items.length ≤ buffer.length ∧
      ((start buffer type optlen data :: (start buffer type optlen data).trail items).IsChain
        fun c c' => c.ptr < c'.ptr ∧ (c'.ptr : Int) - c.ptr = c.len - c'.len) ∧
      List.Forall₂ (Names buffer) items ((start buffer type optlen data).trail items) := by
  obtain ⟨items, rest, rfl, hstop⟩ := encode_code.split buffer
  have hlength := encode_code.length_le items
  have hfuel : (items.flatMap encode ++ rest).length + 1 =
      items.length + 1 + ((items.flatMap encode ++ rest).length - items.length) := by
    rw [List.length_append]
    omega
  obtain ⟨last, hlast⟩ := options_trail [] behind hstop items
    ((items.flatMap encode ++ rest).length - items.length)
    (c := start (items.flatMap encode ++ rest) type optlen data) rfl rfl
  refine ⟨items, rest, last, ?_, rfl, fun items' rest' h => encode_code.maximal h hstop, ?_,
    trail_chain _ items, trail_names [] items rfl⟩
  · rw [hfuel]
    exact hlast
  · rw [List.length_append]
    omega

example : (options (optionMemory [1, 2, 3, 9, 4] 0) 6 (start [1, 2, 3, 9, 4] 0 0 0)).map
    (fun r => r.1.map fun c => (c.type, c.optlen, c.data)) = .ok [(1, 0, 0), (2, 3, 3)] := by
  decide

end Libtrace.OptionParser
