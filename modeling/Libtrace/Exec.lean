import Mathlib.Logic.Function.Basic
import Mathlib.Data.List.Basic

/-! Computations over a mutable state that may stop with a fault. `Spec m s Q E`: from `s`, `m`
returns with `Q` or stops with a fault that `E` allows; with `E` false it is total correctness. -/

namespace Libtrace.Exec

abbrev Prog (ε σ α : Type) := StateT σ (Except ε) α

def Spec {ε σ α : Type} (m : Prog ε σ α) (s : σ) (Q : α → σ → Prop) (E : ε → Prop) : Prop :=
  match m s with
  | .ok (a, s') => Q a s'
  | .error e => E e

variable {ε σ α β : Type} {m : Prog ε σ α} {s s' : σ} {Q : α → σ → Prop} {E : ε → Prop} {a : α}

theorem spec_pure (h : Q a s) : Spec (pure a : Prog ε σ α) s Q E := h

theorem spec_throw {e : ε} (h : E e) : Spec (throw e : Prog ε σ α) s Q E := h

theorem spec_get {Q : σ → σ → Prop} (h : Q s s) : Spec (get : Prog ε σ σ) s Q E := h

theorem spec_modify {f : σ → σ} {Q : PUnit → σ → Prop} (h : Q ⟨⟩ (f s)) :
    Spec (modify f : Prog ε σ PUnit) s Q E := h

theorem spec_bind {f : α → Prog ε σ β} {Q : β → σ → Prop}
    (h : Spec m s (fun a s' => Spec (f a) s' Q E) E) : Spec (m >>= f) s Q E := by
  unfold Spec at h ⊢
  change match (m s >>= fun p => f p.1 p.2) with
    | .ok (a, s') => Q a s'
    | .error e => E e
  cases hm : m s with
  | error e | ok p => rw [hm] at h; exact h

theorem spec_mono {Q' : α → σ → Prop} {E' : ε → Prop} (h : Spec m s Q E)
    (hQ : ∀ a s', Q a s' → Q' a s') (hE : ∀ e, E e → E' e) : Spec m s Q' E' := by
  unfold Spec at h ⊢
  cases hm : m s with
  | error e => exact hE e (by simpa [hm] using h)
  | ok p => exact hQ p.1 p.2 (by simpa [hm] using h)

theorem spec_and {R : α → σ → Prop} (hQ : Spec m s Q E) (hR : Spec m s R E) :
    Spec m s (fun a s' => Q a s' ∧ R a s') E := by
  unfold Spec at hQ hR ⊢
  cases hm : m s with
  | error e => simpa [hm] using hQ
  | ok p => simpa [hm] using And.intro hQ hR

theorem bind_eq_ok {f : α → Prog ε σ β} {s'' : σ} {b : β} :
    (m >>= f) s = .ok (b, s'') ↔ ∃ a s', m s = .ok (a, s') ∧ f a s' = .ok (b, s'') := by
  change (m s >>= fun p => f p.1 p.2) = .ok (b, s'') ↔ _
  cases hm : m s with
  | error e => exact iff_of_false nofun (by simp)
  | ok p =>
    constructor
    · intro h
      exact ⟨p.1, p.2, rfl, h⟩
    · rintro ⟨a, s', he, h⟩
      rw [he]
      exact h

theorem ok_bind (a : α) (f : α → Except ε β) : (Except.ok a >>= f) = f a := rfl

theorem toOption_eq_some {d : Except ε α} : d.toOption = some a ↔ d = .ok a := by
  cases d <;> simp [Except.toOption]

theorem except_bind_ok {d : Except ε α} {f : α → Except ε β} {b : β} :
    (d >>= f) = .ok b ↔ ∃ a, d = .ok a ∧ f a = .ok b := by
  cases d with
  | error e => exact iff_of_false nofun (by simp)
  | ok a =>
    constructor
    · exact fun h => ⟨a, rfl, h⟩
    · rintro ⟨a', ha, h⟩
      exact Except.ok.inj ha ▸ h

theorem ok_unique {x : Except ε α} {b : α} (ha : x = .ok a) (hb : x = .ok b) : a = b :=
  Except.ok.inj (ha.symm.trans hb)

theorem bind_of_ok (hm : m s = .ok (a, s')) (f : α → Prog ε σ β) : (m >>= f) s = f a s' := by
  change (m s >>= fun p => f p.1 p.2) = f a s'
  rw [hm]
  rfl

theorem bind_of_error {e : ε} (hm : m s = .error e) (f : α → Prog ε σ β) :
    (m >>= f) s = .error e := by
  change (m s >>= fun p => f p.1 p.2) = .error e
  rw [hm]
  rfl

theorem map_of_ok (hm : m s = .ok (a, s')) (f : α → β) : (f <$> m) s = .ok (f a, s') := by
  change (m s >>= fun p => pure (f p.1, p.2)) = _
  rw [hm]
  rfl

theorem get_bind (f : σ → Prog ε σ α) (s : σ) : (get >>= f) s = f s s := rfl

theorem modify_bind (g : σ → σ) (f : PUnit → Prog ε σ α) (s : σ) :
    (modify g >>= f) s = f ⟨⟩ (g s) := rfl

theorem lift_bind (d : Except ε α) (f : α → Prog ε σ β) (s : σ) :
    ((liftM d : Prog ε σ α) >>= f) s = d >>= fun a => f a s := by
  cases d <;> rfl

theorem run'_eq (m : Prog ε σ α) (s : σ) : m.run' s = Prod.fst <$> m s := rfl

theorem run'_of_ok (hm : m s = .ok (a, s')) : m.run' s = .ok a := by
  rw [run'_eq, hm]
  rfl

theorem fst_bind (d : Except ε α) (g : α → σ) :
    Prod.fst <$> (d >>= fun a => Except.ok (a, g a)) = d := by
  cases d <;> rfl

theorem spec_seq {f : α → Prog ε σ β} {P : α → σ → Prop} {Q : β → σ → Prop} (hm : Spec m s P E)
    (hf : ∀ a s', P a s' → Spec (f a) s' Q E) : Spec (m >>= f) s Q E :=
  spec_bind (spec_mono hm hf fun _ he => he)

theorem spec_foldlM {f : β → α → Prog ε σ β} (I : List α → β → σ → Prop)
    (xs : List α)
    (step : ∀ done x rest b s, xs = done ++ x :: rest → I done b s →
      Spec (f b x) s (I (done ++ [x])) E)
    (b : β) (s : σ) (h0 : I [] b s) : Spec (xs.foldlM f b) s (I xs) E := by
  suffices general : ∀ rest done b s, xs = done ++ rest → I done b s →
      Spec (rest.foldlM f b) s (I xs) E from general xs [] b s rfl h0
  intro rest
  induction rest with
  | nil =>
    intro done b s hxs h
    exact spec_pure (by simpa [hxs] using h)
  | cons x rest ih =>
    intro done b s hxs h
    exact spec_seq (step done x rest b s hxs h)
      fun b' s' h' => ih (done ++ [x]) b' s' (by simp [hxs]) h'

theorem spec_ok (h : Spec m s Q E) (hm : m s = .ok (a, s')) : Q a s' := by
  simpa [Spec, hm] using h

theorem spec_self (h : Spec m s Q E) : Spec m s (fun a s' => m s = .ok (a, s') ∧ Q a s') E := by
  unfold Spec at h ⊢
  cases hm : m s with
  | error e | ok p => simpa [hm] using h

theorem spec_total (h : Spec m s Q fun _ => False) : ∃ a s', m s = .ok (a, s') ∧ Q a s' := by
  unfold Spec at h
  cases hm : m s with
  | error e => exact absurd h (by simp [hm])
  | ok p => exact ⟨p.1, p.2, rfl, by simpa [hm] using h⟩

/-- From a state with `P`, `m` returns in a state with `Q` or stops as `E` allows. -/
def Carries (E : ε → Prop) (P : σ → Prop) (m : Prog ε σ α) (Q : σ → Prop) : Prop :=
  ∀ s, P s → Spec m s (fun _ s' => Q s') E

section

variable {E : ε → Prop} {P Q R : σ → Prop}

theorem carries_pure (a : α) : Carries E P (pure a : Prog ε σ α) P := fun _ h => h

theorem carries_throw {e : ε} (he : E e) : Carries E P (throw e : Prog ε σ α) Q := fun _ _ => he

theorem carries_throw_bind {e : ε} (he : E e) (f : α → Prog ε σ β) :
    Carries E P ((throw e : Prog ε σ α) >>= f) Q := fun _ _ => he

theorem carries_modify {f : σ → σ} (hf : ∀ s, P s → Q (f s)) :
    Carries E P (modify f : Prog ε σ PUnit) Q := fun s h => hf s h

theorem carries_get : Carries E P (get : Prog ε σ σ) P := fun _ h => h

theorem carries_bind {m : Prog ε σ α} {f : α → Prog ε σ β} (hm : Carries E P m Q)
    (hf : ∀ a, Carries E Q (f a) R) : Carries E P (m >>= f) R :=
  fun s h => spec_seq (hm s h) fun a s' h' => hf a s' h'

theorem carries_ite {c : Prop} [Decidable c] {m m' : Prog ε σ α} (hm : Carries E P m Q)
    (hm' : Carries E P m' Q) : Carries E P (if c then m else m') Q := by
  split
  · exact hm
  · exact hm'

theorem carries_forM {f : β → Prog ε σ PUnit} (hf : ∀ x, Carries E P (f x) P) (xs : List β) :
    Carries E P (xs.forM f) P := by
  induction xs with
  | nil => exact carries_pure _
  | cons x xs ih => exact carries_bind (hf x) fun _ => ih

end

/-- From `s`, `m` returns what `d` returns, in a state with `Q`, or stops as `d` does. -/
def Computes (m : Prog ε σ α) (s : σ) (d : Except ε α) (Q : σ → Prop) : Prop :=
  match d with
  | .ok a => ∃ s', m s = .ok (a, s') ∧ Q s'
  | .error e => m s = .error e

section

variable {P Q : σ → Prop} {s : σ}

theorem computes_pure (a : α) (h : Q s) : Computes (pure a : Prog ε σ α) s (pure a) Q :=
  ⟨s, rfl, h⟩

theorem computes_throw (e : ε) : Computes (throw e : Prog ε σ α) s (throw e) Q := rfl

theorem computes_lift (d : Except ε α) (h : Q s) : Computes (liftM d : Prog ε σ α) s d Q := by
  cases d with
  | ok a => exact ⟨s, rfl, h⟩
  | error e => exact rfl

variable {d : Except ε α} {m : Prog ε σ α}

theorem computes_get {f : σ → Prog ε σ α} (h : Computes (f s) s d Q) :
    Computes (get >>= f) s d Q := h

theorem computes_modify {g : σ → σ} {f : PUnit → Prog ε σ α} (h : Computes (f ⟨⟩) (g s) d Q) :
    Computes (modify g >>= f) s d Q := h

theorem computes_store (d : Except ε α) (g : α → σ → σ) (h : ∀ a, d = .ok a → Q (g a s)) :
    Computes (do let a ← (liftM d : Prog ε σ α); modify (g a); return a) s d Q := by
  cases d with
  | ok a => exact ⟨g a s, rfl, h a rfl⟩
  | error e => exact rfl

theorem computes_bind {f : α → Prog ε σ β} {g : α → Except ε β} (hm : Computes m s d P)
    (hf : ∀ a s', d = .ok a → P s' → Computes (f a) s' (g a) Q) :
    Computes (m >>= f) s (d >>= g) Q := by
  cases d with
  | error e =>
    change (m s >>= fun p => f p.1 p.2) = .error e
    rw [show m s = .error e from hm]
    rfl
  | ok a =>
    obtain ⟨s', hs', hP⟩ := hm
    have := hf a s' rfl hP
    unfold Computes at this ⊢
    rw [bind_of_ok hs']
    exact this

theorem computes_map (f : α → β) (hm : Computes m s d Q) : Computes (f <$> m) s (f <$> d) Q := by
  cases d with
  | error e =>
    change (m s >>= fun p => pure (f p.1, p.2)) = .error e
    rw [show m s = .error e from hm]
    rfl
  | ok a =>
    obtain ⟨s', hs', hQ⟩ := hm
    exact ⟨s', map_of_ok hs' f, hQ⟩

theorem computes_mono (hm : Computes m s d P) (h : ∀ s', P s' → Q s') : Computes m s d Q := by
  cases d with
  | error e => exact hm
  | ok a =>
    obtain ⟨s', hs', hP⟩ := hm
    exact ⟨s', hs', h s' hP⟩

theorem computes_ok {a : α} {s' : σ} (hm : Computes m s d Q) (h : m s = .ok (a, s')) : Q s' := by
  cases d with
  | error e =>
    rw [show m s = .error e from hm] at h
    cases h
  | ok a' =>
    obtain ⟨s'', hs'', hQ⟩ := hm
    rw [hs'', Except.ok.injEq, Prod.mk.injEq] at h
    exact h.2 ▸ hQ

theorem computes_run' (hm : Computes m s d Q) : m.run' s = d := by
  cases d with
  | error e =>
    rw [run'_eq, show m s = .error e from hm]
    rfl
  | ok a =>
    obtain ⟨s', hs', -⟩ := hm
    exact run'_of_ok hs'

end

section

variable {τ Op Result : Type} {exec : σ → Op → Except ε (σ × Result)} {spec : τ → Op → τ × Result}

def execAll (exec : σ → Op → Except ε (σ × Result)) : σ → List Op → Except ε (σ × List Result)
  | s, [] => .ok (s, [])
  | s, op :: ops => do
    let first ← exec s op
    let rest ← execAll exec first.1 ops
    return (rest.1, first.2 :: rest.2)

def specAll (spec : τ → Op → τ × Result) : τ → List Op → τ × List Result
  | t, [] => (t, [])
  | t, op :: ops =>
    ((specAll spec (spec t op).1 ops).1, (spec t op).2 :: (specAll spec (spec t op).1 ops).2)

/-- Where each operation succeeds as specified and keeps the relation, so does every sequence of
them. -/
theorem execAll_refines {R : σ → τ → Prop}
    (hstep : ∀ s t op, R s t → ∃ s', exec s op = .ok (s', (spec t op).2) ∧ R s' (spec t op).1)
    {s : σ} {t : τ} (h : R s t) (ops : List Op) :
    ∃ s', execAll exec s ops = .ok (s', (specAll spec t ops).2) ∧ R s' (specAll spec t ops).1 := by
  induction ops generalizing s t with
  | nil => exact ⟨s, rfl, h⟩
  | cons op ops ih =>
    obtain ⟨s', hexec, h'⟩ := hstep s t op h
    obtain ⟨last, hall, hlast⟩ := ih h'
    refine ⟨last, ?_, hlast⟩
    simp only [execAll, hexec, ok_bind, hall]
    rfl

end

section

variable {ε α β : Type}

/-- `d` is `d'` if `c` holds and stops with `e` otherwise. -/
def Guarded (e : ε) (c : Prop) (d d' : Except ε α) : Prop :=
  (c → d = d') ∧ (¬ c → d = .error e)

variable {e : ε} {c c' : Prop}

variable {d d' : Except ε α} {k k' : α → Except ε β} {g : Prop} {a : α}

theorem guarded_of_iff (h : Guarded e c d d') (hc : c ↔ c') :
    Guarded e c' d d' := by rwa [← hc]

theorem guarded_of_true (h : d = d') (hc : c) : Guarded e c d d' :=
  ⟨fun _ => h, fun hn => (hn hc).elim⟩

theorem guarded_bind {g : α → Prop} (hd : Guarded e c d d')
    (hk : ∀ a, d' = .ok a → Guarded e (g a) (k a) (k' a)) :
    Guarded e (c ∧ ∀ a, d' = .ok a → g a) (d >>= k) (d' >>= k') := by
  by_cases hc : c
  · rw [hd.1 hc]
    cases d' with
    | error e' => exact guarded_of_true rfl ⟨hc, by simp⟩
    | ok a => exact guarded_of_iff (hk a rfl) (by simp [hc])
  · rw [hd.2 hc]
    exact ⟨fun h => (hc h.1).elim, fun _ => rfl⟩

theorem guarded_bind_ok (hd : Guarded e c d d') (ha : d' = .ok a) (hk : Guarded e g (k a) (k' a)) :
    Guarded e (c ∧ g) (d >>= k) (d' >>= k') := by
  refine guarded_of_iff (guarded_bind (g := fun _ => g) hd fun b hb => ?_) (by simp [ha])
  rw [ha] at hb
  rw [← Except.ok.inj hb]
  exact hk

theorem guarded_bind_value {x : Except ε β}
    (hd : Guarded e c d (.ok a)) (hk : Guarded e g (k a) x) : Guarded e (c ∧ g) (d >>= k) x := by
  have hbind : Guarded e (c ∧ g) (d >>= k) ((Except.ok a : Except ε α) >>= fun _ => x) :=
    guarded_bind_ok hd rfl hk
  exact hbind

theorem guarded_bind_sure (hd : Guarded e c d d') (hc : c) (ha : d' = .ok a)
    (hk : Guarded e g (k a) (k' a)) : Guarded e g (d >>= k) (d' >>= k') :=
  guarded_of_iff (guarded_bind_ok hd ha hk) (and_iff_right hc)

theorem guarded_bind_same (hd : Guarded e c d d') (ha : d' = .ok a) (hk : k a = k' a) :
    Guarded e c (d >>= k) (d' >>= k') :=
  guarded_of_iff (guarded_bind_ok hd ha (guarded_of_true hk trivial)) (and_iff_left trivial)

theorem guarded_map (f : α → β) (h : Guarded e c d d') : Guarded e c (f <$> d) (f <$> d') :=
  ⟨fun hc => congrArg (f <$> ·) (h.1 hc), fun hc => congrArg (f <$> ·) (h.2 hc)⟩

end

end Libtrace.Exec
