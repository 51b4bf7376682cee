import Mathlib.Tactic.SplitIfs

/-! Triples for computations that keep their state where they fail: what holds before, what
holds of result and state after, and what holds of the state an error leaves behind. -/

namespace TreeMiner.Lib

variable {σ ε α β : Type}

/-- Started where `P` holds, `m` returns where `Q` holds or fails where `E` does. -/
def Triple (P : σ → Prop) (m : ExceptT ε (StateM σ) α) (Q : α → σ → Prop) (E : σ → Prop) : Prop :=
  ∀ s, P s → match m.run.run s with
    | (.ok a, s') => Q a s'
    | (.error _, s') => E s'

namespace Triple

variable {P P' : σ → Prop} {Q Q' : α → σ → Prop} {R : β → σ → Prop} {E E' : σ → Prop}
  {m : ExceptT ε (StateM σ) α}

theorem conseq (h : Triple P m Q E) (hP : ∀ s, P' s → P s) (hQ : ∀ a s, Q a s → Q' a s)
    (hE : ∀ s, E s → E' s) : Triple P' m Q' E' := by
  intro s hs
  have hend := h s (hP s hs)
  revert hend
  cases m.run.run s with
  | mk result s' =>
    cases result with
    | ok a => exact hQ a s'
    | error e => exact hE s'

theorem pre (h : Triple P m Q E) (hP : ∀ s, P' s → P s) : Triple P' m Q E :=
  h.conseq hP (fun _ _ hQ => hQ) fun _ hE => hE

theorem post (h : Triple P m Q E) (hQ : ∀ a s, Q a s → Q' a s) : Triple P m Q' E :=
  h.conseq (fun _ hP => hP) hQ fun _ hE => hE

/-- What a computation that has returned leaves behind. -/
theorem of_ok (h : Triple P m Q E) {s : σ} (hs : P s) {a : α} (hok : (m.run.run s).1 = .ok a) :
    Q a (m.run.run s).2 := by
  have hend := h s hs
  revert hend hok
  cases m.run.run s with
  | mk result s' =>
    rintro rfl
    exact id

/-- What a computation leaves behind in either case. -/
theorem leaves (h : Triple P m Q E) {s : σ} (hs : P s) (hQ : ∀ a s, Q a s → P' s)
    (hE : ∀ s, E s → P' s) : P' (m.run.run s).2 := by
  have hend := h s hs
  revert hend
  cases m.run.run s with
  | mk result s' =>
    cases result with
    | ok a => exact hQ a s'
    | error e => exact hE s'

/-- A computation that cannot fail returns. -/
theorem returns (h : Triple P m Q E) {s : σ} (hs : P s) (hE : ∀ s, ¬ E s) :
    ∃ a, (m.run.run s).1 = .ok a := by
  have hend := h s hs
  revert hend
  cases m.run.run s with
  | mk result s' =>
    cases result with
    | ok a => exact fun _ => ⟨a, rfl⟩
    | error e => exact fun hend => absurd hend (hE s')

/-- A triple is one for each state it may start from. -/
theorem of_start (h : ∀ s, P s → Triple (· = s) m Q E) : Triple P m Q E :=
  fun s hs => h s hs s rfl

theorem pure {a : α} (h : ∀ s, P s → Q a s) :
    Triple P (Pure.pure a : ExceptT ε (StateM σ) α) Q E := h

theorem throw {e : ε} (h : ∀ s, P s → E s) :
    Triple P (MonadExcept.throw e : ExceptT ε (StateM σ) α) Q E := h

theorem update {f : σ → σ} {Q : Unit → σ → Prop} (h : ∀ s, P s → Q () (f s)) :
    Triple P (modify f : ExceptT ε (StateM σ) Unit) Q E := h

theorem bind {f : α → ExceptT ε (StateM σ) β} (hm : Triple P m Q E)
    (hf : ∀ a, Triple (Q a) (f a) R E) : Triple P (m >>= f) R E := by
  intro s hs
  have hend := hm s hs
  change match (ExceptT.bindCont f (m.run.run s).1).run (m.run.run s).2 with
    | (.ok a, s') => R a s'
    | (.error _, s') => E s'
  revert hend
  cases m.run.run s with
  | mk result s' =>
    cases result with
    | ok a => exact hf a s'
    | error e => exact fun hE => hE

/-- A computation that reads its state goes on from it. -/
theorem get_bind {f : σ → ExceptT ε (StateM σ) β} (h : ∀ s, P s → Triple (· = s) (f s) R E) :
    Triple P (get >>= f) R E :=
  fun s hs => h s hs s rfl

theorem ite {c : Prop} [Decidable c] {m' : ExceptT ε (StateM σ) α}
    (hpos : c → Triple P m Q E) (hneg : ¬ c → Triple P m' Q E) :
    Triple P (if c then m else m') Q E := by
  split_ifs with hc
  · exact hpos hc
  · exact hneg hc

theorem ofExcept {result : Except ε α} (hok : ∀ a s, result = .ok a → P s → Q a s)
    (herror : ∀ e s, result = .error e → P s → E s) :
    Triple P (MonadExcept.ofExcept result : ExceptT ε (StateM σ) α) Q E := by
  cases result with
  | ok a => exact fun s => hok a s rfl
  | error e => exact fun s => herror e s rfl

end Triple

end TreeMiner.Lib
