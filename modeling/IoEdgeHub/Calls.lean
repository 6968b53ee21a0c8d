import Mathlib.Data.List.Basic

/-!
Programs that act on a shared state through atomic calls only. A program either
is finished or makes one call and goes on with what the call returned, so the
same program can be run in one piece or call by call between the calls of
others.
-/
namespace IoEdgeHub.Calls

/-- A program over the calls `C β`, each of which returns a `β`. -/
inductive Prog (C : Type → Type) (α : Type) : Type 1
  | ret (a : α)
  | call {β : Type} (c : C β) (next : β → Prog C α)

variable {C : Type → Type} {σ α β : Type}

def Prog.bind : Prog C α → (α → Prog C β) → Prog C β
  | .ret a, f => f a
  | .call c next, f => .call c fun r => (next r).bind f

instance : Monad (Prog C) where
  pure := .ret
  bind := .bind

/-- The program that makes one call and returns its result. -/
def Prog.once (c : C α) : Prog C α := .call c .ret

/-- The program in one piece. -/
def Prog.run (exec : ∀ {β : Type}, C β → σ → β × σ) : Prog C α → σ → α × σ
  | .ret a, s => (a, s)
  | .call c next, s => (next (exec c s).1).run exec (exec c s).2

variable {exec : ∀ {β : Type}, C β → σ → β × σ}

@[simp ↓] theorem run_pure (a : α) (s : σ) : (pure a : Prog C α).run @exec s = (a, s) := rfl

@[simp ↓] theorem run_once (c : C α) (s : σ) : (Prog.once c).run @exec s = exec c s := rfl

@[simp ↓] theorem run_bind (p : Prog C α) (f : α → Prog C β) (s : σ) :
    (p >>= f).run @exec s = (f (p.run @exec s).1).run @exec (p.run @exec s).2 := by
  induction p generalizing s with
  | ret a => rfl
  | call c next ih => exact ih (exec c s).1 (exec c s).2

@[simp ↓] theorem run_ite (c : Prop) [Decidable c] (p q : Prog C α) (s : σ) :
    (if c then p else q).run @exec s = if c then p.run @exec s else q.run @exec s := by
  split <;> rfl

/-- The program with its calls made through others. -/
def Prog.lift {D : Type → Type} (through : ∀ {β : Type}, C β → D β) : Prog C α → Prog D α
  | .ret a => .ret a
  | .call c next => .call (through c) fun r => (next r).lift through

/-- Whatever its calls return, the program only makes calls that are `ok`. -/
def Prog.All (ok : ∀ {β : Type}, C β → Prop) : Prog C α → Prop
  | .ret _ => True
  | .call c next => ok c ∧ ∀ r, (next r).All ok

variable {ok : ∀ {β : Type}, C β → Prop}

@[simp] theorem all_pure (a : α) : (pure a : Prog C α).All @ok := trivial

@[simp] theorem all_once_bind (c : C α) (f : α → Prog C β) :
    (Prog.once c >>= f).All @ok ↔ ok c ∧ ∀ r, (f r).All @ok := Iff.rfl

@[simp] theorem all_ite {c : Prop} [Decidable c] {p q : Prog C α} :
    (if c then p else q).All @ok ↔ (c → p.All @ok) ∧ (¬ c → q.All @ok) := by
  split <;> simp [*]

theorem all_bind {p : Prog C α} {f : α → Prog C β} (first : p.All @ok) (rest : ∀ a, (f a).All @ok) :
    (p >>= f).All @ok := by
  induction p with
  | ret a => exact rest a
  | call c next ih => exact ⟨first.1, fun r => ih r (first.2 r)⟩

/-- What every such call keeps, the whole program keeps. -/
theorem run_keeps {inv : σ → Prop} (keep : ∀ {β : Type} (c : C β) (s : σ), ok c → inv s → inv (exec c s).2)
    {p : Prog C α} (all : p.All @ok) {s : σ} (start : inv s) : inv (p.run @exec s).2 := by
  induction p generalizing s with
  | ret a => exact start
  | call c next ih => exact ih _ (all.2 _) (keep c s all.1 start)

/-- Whatever its calls return, the program only makes calls that are `ok`, and what it
    returns satisfies `post`. -/
def Prog.Wp (ok : ∀ {β : Type}, C β → Prop) (post : α → Prop) : Prog C α → Prop
  | .ret a => post a
  | .call c next => ok c ∧ ∀ r, (next r).Wp ok post

@[simp] theorem wp_pure {post : α → Prop} {a : α} : (pure a : Prog C α).Wp @ok post ↔ post a := Iff.rfl

@[simp] theorem wp_once {post : α → Prop} {c : C α} : (Prog.once c).Wp @ok post ↔ ok c ∧ ∀ r, post r := Iff.rfl

@[simp] theorem wp_bind {post : β → Prop} {p : Prog C α} {f : α → Prog C β} :
    (p >>= f).Wp @ok post ↔ p.Wp @ok fun a => (f a).Wp @ok post := by
  induction p with
  | ret a => exact Iff.rfl
  | call c next ih => exact and_congr_right fun _ => forall_congr' ih

@[simp] theorem wp_ite {post : α → Prop} {c : Prop} [Decidable c] {p q : Prog C α} :
    (if c then p else q).Wp @ok post ↔ (c → p.Wp @ok post) ∧ (¬ c → q.Wp @ok post) := by
  split <;> simp [*]

theorem wp_mono {ok' : ∀ {β : Type}, C β → Prop} {post post' : α → Prop} {p : Prog C α}
    (calls : ∀ {β : Type} (c : C β), ok c → ok' c) (results : ∀ a, post a → post' a) (first : p.Wp @ok post) :
    p.Wp @ok' post' := by
  induction p with
  | ret a => exact results a first
  | call c next ih => exact ⟨calls c first.1, fun r => ih r (first.2 r)⟩

theorem all_of_wp {post : α → Prop} {p : Prog C α} (first : p.Wp @ok post) : p.All @ok := by
  induction p with
  | ret a => trivial
  | call c next ih => exact ⟨first.1, fun r => ih r (first.2 r)⟩

/-- Whatever the program does, there is nothing to show. -/
theorem wp_trivial {post : α → Prop} (results : ∀ a, post a) {p : Prog C α} : p.Wp (fun _ => True) post := by
  induction p with
  | ret a => exact results a
  | call c next ih => exact ⟨trivial, ih⟩

theorem run_wp {post : α → Prop} {p : Prog C α} (first : p.Wp @ok post) (s : σ) : post (p.run @exec s).1 := by
  induction p generalizing s with
  | ret a => exact first
  | call c next ih => exact ih _ (first.2 _) _

section
variable {γ : Type} (ok : γ → ∀ {β : Type}, C β → Prop) (after : γ → ∀ {β : Type}, C β → β → γ) (final : γ → Prop)

/-- From the protocol state `g` on the program only makes calls that the protocol
    allows, whatever they return, and ends in a final state. -/
def Prog.Obeys : γ → Prog C α → Prop
  | g, .ret _ => final g
  | g, .call c next => ok g c ∧ ∀ r, (next r).Obeys (after g c r)

variable {ok after final}

@[simp] theorem obeys_pure (g : γ) (a : α) :
    (pure a : Prog C α).Obeys @ok @after final g ↔ final g := Iff.rfl

@[simp] theorem obeys_once_bind (g : γ) (c : C α) (f : α → Prog C β) :
    (Prog.once c >>= f).Obeys @ok @after final g ↔
      ok g c ∧ ∀ r, (f r).Obeys @ok @after final (after g c r) := Iff.rfl

@[simp] theorem obeys_ite (g : γ) {c : Prop} [Decidable c] {p q : Prog C α} :
    (if c then p else q).Obeys @ok @after final g ↔
      (c → p.Obeys @ok @after final g) ∧ (¬ c → q.Obeys @ok @after final g) := by
  split <;> simp [*]

theorem obeys_bind {g : γ} {p : Prog C α} {f : α → Prog C β} (first : p.Obeys @ok @after final g)
    (rest : ∀ g a, final g → (f a).Obeys @ok @after final g) : (p >>= f).Obeys @ok @after final g := by
  induction p generalizing g with
  | ret a => exact rest g a first
  | call c next ih => exact ⟨first.1, fun r => ih r (first.2 r)⟩

end

section
variable {γ : Type} (after : γ → ∀ {β : Type}, C β → β → γ)

/-- Whatever its calls return, the program ends with a result that satisfies `post` together
    with what an observer of the calls and their answers has recorded, `g` at the start. -/
def Prog.Ends (post : γ → α → Prop) : γ → Prog C α → Prop
  | g, .ret a => post g a
  | g, .call c next => ∀ r, (next r).Ends post (after g c r)

/-- The calls with the observer's record beside the state. -/
def observed (exec : ∀ {β : Type}, C β → σ → β × σ) {β : Type} (c : C β) (s : σ × γ) : β × (σ × γ) :=
  ((exec c s.1).1, (exec c s.1).2, after s.2 c (exec c s.1).1)

variable {after} {g : γ}

@[simp] theorem ends_pure {post : γ → α → Prop} {a : α} :
    (pure a : Prog C α).Ends @after post g ↔ post g a := Iff.rfl

@[simp] theorem ends_once {post : γ → α → Prop} {c : C α} :
    (Prog.once c).Ends @after post g ↔ ∀ r, post (after g c r) r := Iff.rfl

@[simp] theorem ends_bind {post : γ → β → Prop} {p : Prog C α} {f : α → Prog C β} :
    (p >>= f).Ends @after post g ↔ p.Ends @after (fun g a => (f a).Ends @after post g) g := by
  induction p generalizing g with
  | ret a => exact Iff.rfl
  | call c next ih => exact forall_congr' fun r => ih r

@[simp] theorem ends_ite {post : γ → α → Prop} {c : Prop} [Decidable c] {p q : Prog C α} :
    (if c then p else q).Ends @after post g ↔ (c → p.Ends @after post g) ∧ (¬ c → q.Ends @after post g) := by
  split <;> simp [*]

theorem ends_mono {post post' : γ → α → Prop} {p : Prog C α} (first : p.Ends @after post g)
    (results : ∀ g a, post g a → post' g a) : p.Ends @after post' g := by
  induction p generalizing g with
  | ret a => exact results g a first
  | call c next ih => exact fun r => ih r (first r)

theorem ends_lift {C' : Type → Type} {through : ∀ {β : Type}, C' β → C β} {post : γ → α → Prop} {p : Prog C' α} :
    (p.lift @through).Ends @after post g ↔ p.Ends (fun g _ c r => after g (through c) r) post g := by
  induction p generalizing g with
  | ret a => exact Iff.rfl
  | call c next ih => exact forall_congr' fun r => ih r

/-- Whatever the program does, there is nothing to show. -/
theorem ends_trivial {post : γ → α → Prop} (results : ∀ g a, post g a) (p : Prog C α) : p.Ends @after post g := by
  induction p generalizing g with
  | ret a => exact results g a
  | call c next ih => exact fun r => ih r

/-- A result that does not depend on the record. -/
theorem wp_of_ends {post : α → Prop} {p : Prog C α} (first : p.Ends @after (fun _ a => post a) g) :
    p.Wp (fun _ => True) post := by
  induction p generalizing g with
  | ret a => exact first
  | call c next ih => exact ⟨trivial, fun r => ih r (first r)⟩

/-- Calls that the observer does not record. -/
theorem ends_of_all {ok : ∀ {β : Type}, C β → Prop} (silent : ∀ (g : γ) {β : Type} (c : C β) (r : β), ok c → after g c r = g)
    {post : γ → α → Prop} {p : Prog C α} (all : p.Wp @ok (post g)) : p.Ends @after post g := by
  induction p with
  | ret a => exact all
  | call c next ih =>
    intro r
    rw [silent g c r all.1]
    exact ih r (all.2 r)

/-- What the record satisfies at the start and every such call keeps. -/
theorem ends_keeps {ok : ∀ {β : Type}, C β → Prop} {inv : γ → Prop}
    (keep : ∀ (g : γ) {β : Type} (c : C β) (r : β), ok c → inv g → inv (after g c r)) {post : γ → α → Prop} {p : Prog C α}
    (all : p.Wp @ok fun a => ∀ g, inv g → post g a) (start : inv g) : p.Ends @after post g := by
  induction p generalizing g with
  | ret a => exact all g start
  | call c next ih => exact fun r => ih r (all.2 r) (keep g c r all.1 start)

theorem run_ends {post : γ → α → Prop} {p : Prog C α} (first : p.Ends @after post g) (s : σ) :
    post (p.run (observed @after @exec) (s, g)).2.2 (p.run (observed @after @exec) (s, g)).1 := by
  induction p generalizing s g with
  | ret a => exact first
  | call c next ih => exact ih _ (first _) _

/-- Nothing in the run depends on the observer. -/
theorem run_observed (p : Prog C α) (s : σ) (g : γ) :
    (p.run (observed @after @exec) (s, g)).1 = (p.run @exec s).1 ∧
      (p.run (observed @after @exec) (s, g)).2.1 = (p.run @exec s).2 := by
  induction p generalizing s g with
  | ret a => exact ⟨rfl, rfl⟩
  | call c next ih => exact ih _ _ _

/-- What every call keeps between the state and the record, the program keeps. -/
theorem run_related {R : σ → γ → Prop}
    (keep : ∀ {β : Type} (c : C β) (s : σ) (g : γ), R s g → R (exec c s).2 (after g c (exec c s).1)) (p : Prog C α) {s : σ}
    (start : R s g) : R (p.run (observed @after @exec) (s, g)).2.1 (p.run (observed @after @exec) (s, g)).2.2 := by
  induction p generalizing s g with
  | ret a => exact start
  | call c next ih => exact ih _ (keep c s g start)

end

end IoEdgeHub.Calls
