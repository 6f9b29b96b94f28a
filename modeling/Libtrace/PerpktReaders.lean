import Libtrace.PerpktLoop

/-! The functions that read a batch find every packet and leave the array full up to the number they
return. -/

namespace Libtrace.PerpktReaders
open HasherRead BatchDispatch PerpktLoop Function

variable {α : Type}

def Full (packets : Nat → Option (Packet α)) (n : Nat) : Prop := ∀ i < n, ∃ p, packets i = some p

section

variable {packets : Nat → Option (Packet α)} {n : Nat}

theorem slot_some {p : Packet α} {i : Nat} (h : packets i = some p) : slot packets i = .ok p := by
  rw [slot, h]

theorem Full.mono (h : Full packets n) {k : Nat} (hk : k ≤ n) : Full packets k :=
  fun i hi => h i (by omega)

theorem Full.update (h : Full packets n) (i : Nat) (p : Packet α) :
    Full (update packets i (some p)) n := by
  intro j hj
  rw [update_apply]
  split_ifs
  · exact ⟨p, rfl⟩
  · exact h j hj

def Reads (n : Nat) (m : Except Fault (Int × (Nat → Option (Packet α)))) : Prop :=
  ∃ nb packets, m = .ok (nb, packets) ∧ nb ≤ n ∧ Full packets n

theorem firstServed_reads (h : Full packets n) {i : Nat} (hi : i ≤ n) (hn : 0 < n) :
    Reads n (firstServed packets i) := by
  obtain ⟨p, hp⟩ := h 0 hn
  refine ⟨i, packets, ?_, by omega, h⟩
  rw [firstServed, slot_some hp]
  rfl

theorem readSlots_reads (supply : Supply α) (hn : 0 < n) (todo : Nat) {i : Nat}
    (h : Full packets n) (hi : i + todo = n) : Reads n (readSlots supply packets todo i) := by
  induction todo generalizing packets i with
  | zero => exact firstServed_reads h (by omega) hn
  | succ todo ih =>
    rw [readSlots]
    by_cases hhalt : supply.halt i = true
    · rw [if_pos hhalt]
      exact firstServed_reads h (by omega) hn
    · obtain ⟨p, hp⟩ := h i (by omega)
      have hfull := h.update i (supply.source i)
      rw [if_neg hhalt, slot_some hp, Exec.ok_bind]
      dsimp only
      split_ifs with herror hfirst
      · exact ⟨_, _, rfl, by omega, hfull⟩
      · exact firstServed_reads hfull (by omega) hn
      · exact ih hfull (by omega)

theorem readPacket_reads (supply : Supply α) (hn : 0 < n) (h : Full packets n) :
    Reads n (readPacket supply packets) := by
  obtain ⟨p, hp⟩ := h 0 hn
  refine ⟨_, _, by rw [readPacket, slot_some hp]; rfl, ?_, h.update 0 _⟩
  split_ifs <;> omega

theorem forM_slot (h : Full packets n) (slots : List Nat) (hslots : ∀ i ∈ slots, i < n) :
    slots.forM (fun i => discard (slot packets i)) = .ok () := by
  induction slots with
  | nil => rfl
  | cons i rest ih =>
    obtain ⟨p, hp⟩ := h i (hslots i List.mem_cons_self)
    have hi : discard (slot packets i) = .ok () := by rw [slot_some hp]; rfl
    have hrest := ih fun j hj => hslots j (List.mem_cons_of_mem _ hj)
    show (discard (slot packets i) >>= fun _ => rest.forM _) = _
    rw [hi]
    exact hrest

theorem preadWrapper_reads (cfg : Config) (supply : Supply α) (h : Full packets cfg.burstSize)
    (hret : supply.ret ≤ cfg.burstSize) :
    Reads cfg.burstSize (preadWrapper cfg supply packets) := by
  refine ⟨supply.ret, fun i => if i < cfg.burstSize then some (supply.source i) else packets i, ?_,
    hret, fun i hi => ⟨supply.source i, if_pos hi⟩⟩
  rw [preadWrapper, forM_slot h _ fun i hi => List.mem_range.mp hi]
  rfl

theorem full_update {packets : Nat → Option (Packet α)} {i : Nat} (h : Full packets i)
    (p : Option (Packet α)) : Full (update packets i p) i := by
  intro j hj
  rw [update_of_ne (by omega)]
  exact h j hj

theorem full_succ {packets : Nat → Option (Packet α)} {i : Nat} (h : Full packets i)
    (p : Packet α) :
    Full (update packets i (some p)) (i + 1) := by
  intro j hj
  rw [update_apply]
  split_ifs with hi
  · exact ⟨p, rfl⟩
  · exact h j (by omega)

def NoData (formatData : Option (Packet α)) : Prop := ∀ p, formatData = some p → p.error ≤ 0

theorem fillBatch_full (first : Packet α) (todo i ready : Nat) (t : Perpkt α)
    (h : Full t.packets i) (hdata : NoData t.formatData) :
    (fillBatch first todo i ready t).1 ≤ i + todo ∧
      Full (fillBatch first todo i ready t).2.packets (fillBatch first todo i ready t).1 ∧
      NoData (fillBatch first todo i ready t).2.formatData := by
  induction todo generalizing i ready t with
  | zero => exact ⟨Nat.le_refl _, h, hdata⟩
  | succ todo ih =>
    unfold fillBatch
    split
    case h_1 ready p rest _ =>
      dsimp only
      split_ifs with hstop hkeep
      · refine ⟨by omega, full_update h _, fun q hq => ?_⟩
        obtain rfl := Option.some.inj hq
        exact hstop.1
      · exact ⟨by omega, full_update h _, hdata⟩
      · obtain ⟨hle, hrest⟩ := ih (i + 1) ready
          ({ t.recycle i with rbuffer := rest }.put i (some p)) (full_succ h p) hdata
        exact ⟨Nat.le_trans hle (by omega), hrest⟩
    case h_2 => exact ⟨by omega, full_update h _, hdata⟩

theorem preadHasherThread_full {ready : Nat} {t t' : Perpkt α} {nb : Int} (hn : 0 < n)
    (h : preadHasherThread n ready t = some (nb, t')) (hdata : NoData t.formatData) :
    nb ≤ n ∧ Full t'.packets nb.toNat ∧ NoData t'.formatData := by
  unfold preadHasherThread at h
  split at h
  case h_1 p hp =>
    obtain ⟨rfl, rfl⟩ := Prod.mk.inj (Option.some.inj h)
    have herror := hdata p hp
    refine ⟨by omega, fun i hi => ?_, hdata⟩
    omega
  case h_2 hnone =>
    split at h
    · cases h
    · rename_i p rest hq
      split_ifs at h with hstop
      · obtain ⟨rfl, rfl⟩ := Prod.mk.inj (Option.some.inj h)
        refine ⟨by omega, fun i hi => ?_, hdata⟩
        omega
      · obtain ⟨rfl, rfl⟩ := Prod.mk.inj (Option.some.inj h)
        have hfirst : Full (update t.packets 0 (some p)) 1 :=
          full_succ (fun i hi => absurd hi (Nat.not_lt_zero i)) p
        obtain ⟨hle, hfull, hdata'⟩ := fillBatch_full p (n - 1) 1 ready
          ({ t.recycle 0 with rbuffer := rest }.put 0 (some p)) hfirst hdata
        exact ⟨Int.ofNat_le.mpr (Nat.le_trans hle (by omega)), hfull, hdata'⟩

def Ready (cfg : Config) (packets : Nat → Option (Packet α)) : Prop :=
  cfg.reader ≠ .hasherThread → Full packets cfg.burstSize

theorem pread_ready (cfg : Config) (supply : Supply α) (l : Loop α) (h : Ready cfg packets)
    (hret : cfg.reader = .wrapper → supply.ret ≤ cfg.burstSize) (hdata : NoData l.formatData) :
    pread cfg supply l packets = .ok none ∨ ∃ nb packets' formatData,
      pread cfg supply l packets = .ok (some (nb, packets', formatData)) ∧ nb ≤ cfg.burstSize ∧
      Full packets' nb.toNat ∧ Ready cfg packets' ∧ NoData formatData := by
  have hread {m : Except Fault (Int × (Nat → Option (Packet α)))} (hm : Reads cfg.burstSize m)
      (hpread : pread cfg supply l packets =
        m >>= fun r => .ok (some (r.1, r.2, l.formatData))) :
      ∃ nb packets' formatData, pread cfg supply l packets = .ok (some (nb, packets', formatData)) ∧
        nb ≤ cfg.burstSize ∧ Full packets' nb.toNat ∧ Ready cfg packets' ∧ NoData formatData := by
    obtain ⟨nb, packets', rfl, hnb, hfull⟩ := hm
    exact ⟨nb, packets', l.formatData, hpread, hnb, hfull.mono (by omega), fun _ => hfull, hdata⟩
  have hpos := cfg.burstSize_pos
  cases hreader : cfg.reader with
  | readPacket =>
    have hfull := h (by rw [hreader]; decide)
    exact .inr (hread (readPacket_reads supply hpos hfull) (by rw [pread, hreader]; rfl))
  | firstInFirstServed =>
    have hfull := h (by rw [hreader]; decide)
    exact .inr (hread (readSlots_reads supply hpos cfg.burstSize hfull (Nat.zero_add _))
      (by rw [pread, hreader]; rfl))
  | wrapper =>
    have hfull := h (by rw [hreader]; decide)
    exact .inr (hread (preadWrapper_reads cfg supply hfull (hret hreader))
      (by rw [pread, hreader]; rfl))
  | hasherThread =>
    rw [pread, hreader]
    dsimp only
    cases hrun : preadHasherThread cfg.burstSize supply.ready
        ⟨supply.rbuffer, l.formatData, packets, []⟩ with
    | none => exact .inl rfl
    | some r =>
      obtain ⟨hnb, hfull, hdata'⟩ := preadHasherThread_full hpos hrun hdata
      exact .inr ⟨r.1, r.2.packets, r.2.formatData, rfl, hnb, hfull,
        fun hne => absurd hreader hne, hdata'⟩

end

end Libtrace.PerpktReaders
