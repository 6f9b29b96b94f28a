import Libtrace.PcapFile

/-! `trace_get_radiotap_field` against the layout of the radiotap fields. It aligns the field that
is asked for, but not those it goes over. -/

namespace Libtrace.RadiotapFields
open Protocols PcapFile

section

inductive Field where
  | tsft
  | flags
  | rate
  | channel
  | fhss
  | dbmAntsignal
  | dbmAntnoise
  | lockQuality
  | txAttenuation
  | dbTxAttenuation
  | dbmTxPower
  | antenna
  | dbAntsignal
  | dbAntnoise
  | rxFlags
  | txFlags
  | rtsRetries
  | dataRetries
  | ext
  deriving DecidableEq, Repr

def Field.bit : Field → Nat
  | .tsft => 0
  | .flags => 1
  | .rate => 2
  | .channel => 3
  | .fhss => 4
  | .dbmAntsignal => 5
  | .dbmAntnoise => 6
  | .lockQuality => 7
  | .txAttenuation => 8
  | .dbTxAttenuation => 9
  | .dbmTxPower => 10
  | .antenna => 11
  | .dbAntsignal => 12
  | .dbAntnoise => 13
  | .rxFlags => 14
  | .txFlags => 15
  | .rtsRetries => 16
  | .dataRetries => 17
  | .ext => 31

def known : List Field :=
  [.tsft, .flags, .rate, .channel, .fhss, .dbmAntsignal, .dbmAntnoise, .lockQuality,
    .txAttenuation, .dbTxAttenuation, .dbmTxPower, .antenna, .dbAntsignal, .dbAntnoise]

def Field.size : Field → Nat
  | .tsft => 8
  | .channel => 4
  | .fhss | .lockQuality | .txAttenuation | .dbTxAttenuation => 2
  | _ => 1

def Field.aligned : Field → Bool
  | .channel | .fhss | .lockQuality | .txAttenuation | .dbTxAttenuation => true
  | _ => false

def has (present : Nat) (field : Field) : Bool := present / 2 ^ field.bit % 2 == 1

def alignNatural16 (p s : Nat) : Nat := if (p - s) % 2 = 0 then p else p + 1

def walk (present : Nat) (field : Field) (s : Nat) : List Field → Nat → Option Nat
  | [], _ => none
  | f :: rest, p =>
    if field = f then some (if f.aligned then alignNatural16 p s else p)
    else walk present field s rest (if has present f then p + f.size else p)

def getRadiotapField (m : Memory) (fuel : Nat) (field : Field) : Decode (Option Nat) := do
  let present ← le32 m 4
  if has present field = false then return none
  else
    let s ← skipBitmasks m fuel 4
    return walk present field s known s

end

section

/-- The two bytes of the FHSS field need no alignment; `wide` says that it is aligned like 16 bits
nevertheless. -/
def Field.alignment (wide : Bool) : Field → Nat
  | .tsft => 8
  | .channel | .lockQuality | .txAttenuation | .dbTxAttenuation => 2
  | .fhss => if wide then 2 else 1
  | _ => 1

def alignUp (p a : Nat) : Nat := (p + a - 1) / a * a

structure Placed where
  field : Field
  before : Nat
  offset : Nat
  deriving DecidableEq, Repr

def layout (wide : Bool) : List Field → Nat → List Placed
  | [], _ => []
  | f :: rest, p =>
    let offset := alignUp p (f.alignment wide)
    ⟨f, p, offset⟩ :: layout wide rest (offset + f.size)

def offsetOf (placed : List Placed) (field : Field) : Option Nat :=
  (placed.find? fun x => x.field == field).map Placed.offset

structure Bitmasks (m : Memory) (present n : Nat) : Prop where
  present : le32 m 4 = .ok present
  extended : ∀ i ≤ n, ∃ mask, le32 m (4 + 4 * i) = .ok mask ∧ (mask / 2 ^ 31 % 2 = 1 ↔ i < n)

def headerLayout (wide : Bool) (present n : Nat) : List Placed :=
  layout wide (known.filter (has present)) (8 + 4 * n)

def Placed.Padded (x : Placed) : Prop := x.offset ≠ x.before

instance (x : Placed) : Decidable x.Padded := inferInstanceAs (Decidable (x.offset ≠ x.before))

/-- Only fields that the function aligns have padding before them or come after padding, all at even
offsets. -/
structure Compatible (placed : List Placed) : Prop where
  own : ∀ x ∈ placed, x.Padded → x.field.aligned = true
  even : ∀ x ∈ placed, x.field.aligned = true → x.offset % 2 = 0
  later : placed.Pairwise fun x y => x.Padded → y.field.aligned = true

end

section

variable {present s p : Nat} {field : Field} {wide : Bool}

def walkPresent (field : Field) (s : Nat) : List Field → Nat → Option Nat
  | [], _ => none
  | f :: rest, p =>
    if field = f then some (if f.aligned then alignNatural16 p s else p)
    else walkPresent field s rest (p + f.size)

theorem walk_filter (hfield : has present field = true) (fields : List Field) :
    walk present field s fields p = walkPresent field s (fields.filter (has present)) p := by
  induction fields generalizing p with
  | nil => rfl
  | cons f rest ih =>
    rw [walk]
    by_cases hf : field = f
    · subst hf
      rw [if_pos rfl, List.filter_cons_of_pos hfield, walkPresent, if_pos rfl]
    · by_cases hp : has present f = true
      · rw [if_neg hf, if_pos hp, ih, List.filter_cons_of_pos hp, walkPresent, if_neg hf]
      · rw [if_neg hf, if_neg hp, ih, List.filter_cons_of_neg hp]

theorem alignNatural16_eq (hs : s % 2 = 0) (hp : s ≤ p) : alignNatural16 p s = p + p % 2 := by
  unfold alignNatural16
  split_ifs <;> omega

theorem alignUp_one (p : Nat) : alignUp p 1 = p := by
  simp [alignUp]

theorem alignUp_two (p : Nat) : alignUp p 2 = p + p % 2 := by
  unfold alignUp
  omega

theorem alignUp_even {p a : Nat} (ha : a = 1 ∨ a = 2) (hp : p % 2 = 0) : alignUp p a = p := by
  rcases ha with rfl | rfl
  · exact alignUp_one p
  · rw [alignUp_two, hp, Nat.add_zero]

theorem alignment_cases (wide : Bool) {f : Field} (h : f ≠ .tsft) :
    f.aligned = true ∧ f.size % 2 = 0 ∧ (f.alignment wide = 1 ∨ f.alignment wide = 2) ∨
      f.aligned = false ∧ f.alignment wide = 1 := by
  cases wide <;> cases f <;> first | exact absurd rfl h | decide

def Agree (wide : Bool) (s : Nat) (fields : List Field) (c e : Nat) : Prop :=
  ∀ f ∈ fields, walkPresent f s fields c = offsetOf (layout wide fields e) f

theorem offsetOf_cons (x : Placed) (placed : List Placed) (f : Field) :
    offsetOf (x :: placed) f = if x.field = f then some x.offset else offsetOf placed f := by
  unfold offsetOf
  by_cases hf : x.field = f
  · simp [hf]
  · simp [hf]

variable {fields : List Field}

theorem agree_cons {g : Field} (hnodup : (g :: fields).Nodup) (c e : Nat) :
    Agree wide s (g :: fields) c e ↔
      (if g.aligned then alignNatural16 c s else c) = alignUp e (g.alignment wide) ∧
        Agree wide s fields (c + g.size) (alignUp e (g.alignment wide) + g.size) := by
  have hhead : walkPresent g s (g :: fields) c = offsetOf (layout wide (g :: fields) e) g ↔
      (if g.aligned then alignNatural16 c s else c) = alignUp e (g.alignment wide) := by
    rw [walkPresent, if_pos rfl, layout, offsetOf_cons, if_pos rfl, Option.some.injEq]
  have htail : ∀ f ∈ fields,
      (walkPresent f s (g :: fields) c = offsetOf (layout wide (g :: fields) e) f ↔
        walkPresent f s fields (c + g.size) =
          offsetOf (layout wide fields (alignUp e (g.alignment wide) + g.size)) f) := by
    intro f hf
    have hne : f ≠ g := fun h => (List.nodup_cons.mp hnodup).1 (h ▸ hf)
    rw [walkPresent, if_neg hne, layout, offsetOf_cons, if_neg (Ne.symm hne)]
  rw [Agree, List.forall_mem_cons, hhead]
  exact and_congr_right fun _ => forall₂_congr htail

theorem layout_fields (wide : Bool) (fields : List Field) (e : Nat) :
    (layout wide fields e).map Placed.field = fields := by
  induction fields generalizing e with
  | nil => rfl
  | cons f rest ih => rw [layout, List.map_cons, ih]

theorem forall_layout {wide : Bool} {e : Nat} {P : Field → Prop} :
    (∀ x ∈ layout wide fields e, P x.field) ↔ ∀ f ∈ fields, P f := by
  rw [← List.forall_mem_map, layout_fields]

theorem compatible_cons {x : Placed} {placed : List Placed} :
    Compatible (x :: placed) ↔
      (x.Padded → x.field.aligned = true) ∧ (x.field.aligned = true → x.offset % 2 = 0) ∧
        (x.Padded → ∀ y ∈ placed, y.field.aligned = true) ∧ Compatible placed := by
  constructor
  · intro h
    obtain ⟨hx, hrest⟩ := List.pairwise_cons.mp h.later
    exact ⟨h.own x List.mem_cons_self, h.even x List.mem_cons_self, fun hp y hy => hx y hy hp,
      fun y hy => h.own y (List.mem_cons_of_mem x hy),
      fun y hy => h.even y (List.mem_cons_of_mem x hy), hrest⟩
  · rintro ⟨hown, heven, hlater, hrest⟩
    exact ⟨List.forall_mem_cons.mpr ⟨hown, hrest.own⟩, List.forall_mem_cons.mpr ⟨heven, hrest.even⟩,
      List.pairwise_cons.mpr ⟨fun y hy hp => hlater hp y hy, hrest.later⟩⟩

theorem compatible_of_aligned (htsft : ∀ f ∈ fields, f ≠ .tsft)
    (haligned : ∀ f ∈ fields, f.aligned = true) {e : Nat} (he : e % 2 = 0) :
    Compatible (layout wide fields e) := by
  induction fields generalizing e with
  | nil => exact ⟨nofun, nofun, .nil⟩
  | cons f rest ih =>
    obtain ⟨hf, hrest⟩ := List.forall_mem_cons.mp haligned
    obtain ⟨hf', hrest'⟩ := List.forall_mem_cons.mp htsft
    obtain ⟨-, hsize, halign⟩ | ⟨hnot, -⟩ := alignment_cases wide hf'
    · rw [layout, compatible_cons]
      rw [alignUp_even halign he]
      exact ⟨fun _ => hf, fun _ => he, fun _ => forall_layout.mpr hrest,
        ih hrest' hrest (by omega)⟩
    · rw [hf] at hnot
      cases hnot

section

variable {c : Nat} (hnodup : fields.Nodup) (htsft : ∀ f ∈ fields, f ≠ .tsft) (hs : s % 2 = 0)
  (hc : s ≤ c)
include hnodup htsft hs hc

theorem agree_behind (hodd : c % 2 = 1) :
    Agree wide s fields c (c + 1) ↔ ∀ f ∈ fields, f.aligned = true := by
  induction fields generalizing c with
  | nil => exact iff_of_true nofun nofun
  | cons f rest ih =>
    obtain ⟨hf, hrest⟩ := List.forall_mem_cons.mp htsft
    have hnodup' := (List.nodup_cons.mp hnodup).2
    rw [agree_cons hnodup, List.forall_mem_cons]
    obtain ⟨haligned, hsize, halign⟩ | ⟨hnot, halign⟩ := alignment_cases wide hf
    · rw [alignUp_even halign (by omega), if_pos haligned, alignNatural16_eq hs hc, hodd,
        Nat.add_right_comm, ih hnodup' hrest (by omega) (by omega)]
      simp [haligned]
    · rw [halign, alignUp_one, hnot]
      simp

theorem agree_iff : Agree wide s fields c c ↔ Compatible (layout wide fields c) := by
  induction fields generalizing c with
  | nil => exact iff_of_true nofun ⟨nofun, nofun, .nil⟩
  | cons f rest ih =>
    obtain ⟨hf, hrest⟩ := List.forall_mem_cons.mp htsft
    have hnodup' := (List.nodup_cons.mp hnodup).2
    rw [agree_cons hnodup, layout, compatible_cons]
    simp only [Placed.Padded]
    obtain ⟨haligned, hsize, halign⟩ | ⟨hnot, halign⟩ := alignment_cases wide hf
    · rw [if_pos haligned, alignNatural16_eq hs hc]
      rcases Nat.mod_two_eq_zero_or_one c with heven | hodd
      · rw [alignUp_even halign heven, heven, ih hnodup' hrest (by omega)]
        simp
      · rcases halign with h | h <;> rw [h]
        · -- the FHSS field at an odd offset
          rw [alignUp_one]
          refine iff_of_false (fun hp => ?_) fun hp => ?_
          · have := hp.1
            omega
          · have := hp.2.1 haligned
            omega
        · rw [alignUp_two, hodd, Nat.add_right_comm,
            agree_behind hnodup' hrest hs (by omega) (by omega)]
          constructor
          · rintro ⟨-, hall⟩
            exact ⟨fun _ => haligned, fun _ => by omega, fun _ => forall_layout.mpr hall,
              compatible_of_aligned hrest hall (by omega)⟩
          · rintro ⟨-, -, hlater, -⟩
            exact ⟨rfl, forall_layout.mp (hlater (by omega))⟩
    · rw [halign, alignUp_one, hnot, ih hnodup' hrest (by omega)]
      simp

end

end

section

variable {m : Memory} {present n fuel : Nat} {wide : Bool} {field : Field}

theorem skipBitmasks_extended (h : Bitmasks m present n) {i : Nat} (hi : i ≤ n)
    (hfuel : n - i < fuel) : skipBitmasks m fuel (4 + 4 * i) = .ok (8 + 4 * n) := by
  induction fuel generalizing i with
  | zero => exact absurd hfuel (Nat.not_lt_zero _)
  | succ fuel ih =>
    obtain ⟨mask, hmask, hext⟩ := h.extended i hi
    rw [skipBitmasks, hmask]
    change (if mask / 2 ^ 31 % 2 = 1 then _ else _) = _
    by_cases hlast : i < n
    · rw [if_pos (hext.mpr hlast)]
      exact ih (i := i + 1) (by omega) (by omega)
    · rw [if_neg fun hm => hlast (hext.mp hm)]
      obtain rfl : i = n := by omega
      exact congrArg Except.ok (by omega)

theorem getRadiotapField_absent (h : Bitmasks m present n) (hfield : has present field = false) :
    getRadiotapField m fuel field = .ok none := by
  rw [getRadiotapField, h.present]
  exact if_pos hfield

theorem getRadiotapField_present (h : Bitmasks m present n) (hfuel : n < fuel)
    (hfield : has present field = true) :
    getRadiotapField m fuel field =
      .ok (walkPresent field (8 + 4 * n) (known.filter (has present)) (8 + 4 * n)) := by
  have hskip := skipBitmasks_extended h (Nat.zero_le n) hfuel
  rw [getRadiotapField, h.present]
  change (if has present field = false then _ else skipBitmasks m fuel (4 + 4 * 0) >>= _) = _
  rw [if_neg (by rw [hfield]; decide), hskip]
  exact congrArg Except.ok (walk_filter hfield known)

theorem offsetOf_absent (hfield : has present field = false) :
    offsetOf (headerLayout wide present n) field = none := by
  have hne : ∀ x ∈ headerLayout wide present n, x.field ≠ field := by
    refine (forall_layout (P := (· ≠ field))).mpr fun f hf => ?_
    rintro rfl
    rw [(List.mem_filter.mp hf).2] at hfield
    cases hfield
  rw [offsetOf, List.find?_eq_none.mpr fun x hx => by simpa using hne x hx]
  rfl

theorem agree_header (wide : Bool) (present n : Nat) :
    Agree wide (8 + 4 * n) (known.filter (has present)) (8 + 4 * n) (8 + 4 * n) ↔
      Compatible (headerLayout wide present n) := by
  have hnodup : (known.filter (has present)).Nodup :=
    List.Pairwise.filter _ (show known.Nodup by decide)
  have hrest : ∀ f ∈ known.tail.filter (has present), f ≠ .tsft := by
    intro f hf
    have hmem := (List.mem_filter.mp hf).1
    have hall : ∀ f ∈ known.tail, f ≠ .tsft := by decide
    exact hall f hmem
  unfold headerLayout
  by_cases htsft : has present .tsft = true
  · have hcons : known.filter (has present) = .tsft :: known.tail.filter (has present) :=
      List.filter_cons_of_pos htsft
    rw [hcons] at hnodup ⊢
    rw [agree_cons hnodup, layout, compatible_cons]
    simp only [Placed.Padded, Field.aligned, Field.alignment, Field.size]
    by_cases hpadded : alignUp (8 + 4 * n) 8 = 8 + 4 * n
    · rw [hpadded, agree_iff (List.nodup_cons.mp hnodup).2 hrest (by omega) (by omega)]
      simp
    · refine iff_of_false (fun h => hpadded h.1.symm) fun h => ?_
      cases h.1 hpadded
  · have hcons : known.filter (has present) = known.tail.filter (has present) :=
      List.filter_cons_of_neg htsft
    rw [hcons] at hnodup ⊢
    exact agree_iff hnodup hrest (by omega) (Nat.le_refl _)

end

/-- An absent field is not found. The present ones are found exactly if no padding misleads the
walk. -/
theorem getRadiotapField_iff (wide : Bool) (m : Memory) (present n fuel : Nat)
    (hmasks : Bitmasks m present n) (hfuel : n < fuel) :
    (∀ field, has present field = false → getRadiotapField m fuel field = .ok none) ∧
      ((∀ field ∈ known, getRadiotapField m fuel field =
          .ok (offsetOf (headerLayout wide present n) field)) ↔
        Compatible (headerLayout wide present n)) := by
  refine ⟨fun field => getRadiotapField_absent hmasks, ?_⟩
  rw [← agree_header wide present n]
  constructor
  · intro h field hfield
    obtain ⟨hknown, hhas⟩ := List.mem_filter.mp hfield
    have hfound := h field hknown
    rw [getRadiotapField_present hmasks hfuel hhas, Except.ok.injEq] at hfound
    exact hfound
  · intro h field hknown
    by_cases hhas : has present field = true
    · rw [getRadiotapField_present hmasks hfuel hhas, h field (List.mem_filter.mpr ⟨hknown, hhas⟩)]
      rfl
    · have habsent := (Bool.not_eq_true _).mp hhas
      rw [getRadiotapField_absent hmasks habsent, offsetOf_absent habsent]

def headerMemory (masks : List UInt8) : Memory := fun i => ([0, 0, 0, 0] ++ masks)[i]?

theorem evenHeader_found :
    known.map (getRadiotapField (headerMemory [0x2e, 0, 0, 0]) 1) =
      known.map fun field => .ok (offsetOf (headerLayout false 0x2e 0) field) := by
  have hmasks : Bitmasks (headerMemory [0x2e, 0, 0, 0]) 0x2e 0 :=
    ⟨by decide, fun i hi => ⟨0x2e, by rw [Nat.le_zero.mp hi]; decide, by omega⟩⟩
  exact List.map_congr_left ((getRadiotapField_iff false _ 0x2e 0 1 hmasks (by decide)).2.mpr
    ⟨by decide, by decide, by decide⟩)

/-- The padding after the flags is forgotten. -/
theorem oddHeader_not_found :
    getRadiotapField (headerMemory [0x2a, 0, 0, 0]) 1 .dbmAntsignal = .ok (some 13) ∧
      ∀ wide, offsetOf (headerLayout wide 0x2a 0) .dbmAntsignal = some 14 := by
  decide +kernel

end Libtrace.RadiotapFields
