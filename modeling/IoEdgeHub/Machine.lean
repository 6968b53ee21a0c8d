import Mathlib.Data.List.Basic

/-!
Machines that take one input at a time, and the rules that results about whole
runs rest on: what every allowed step keeps, every allowed run keeps; what a run
puts out is put together from what its parts put out; and two machines that agree
on each part of a run agree on all of it.
-/
namespace IoEdgeHub.Machine
universe u v w
variable {σ : Type u} {ε : Type v} {ο : Type w}

/-- Every input of the run from `s` is allowed in the state it arrives in. -/
def Meets (step : σ → ε → σ) (allowed : σ → ε → Prop) : σ → List ε → Prop
  | _, [] => True
  | s, e :: rest => allowed s e ∧ Meets step allowed (step s e) rest

instance decidableMeets (step : σ → ε → σ) (allowed : σ → ε → Prop) [∀ s e, Decidable (allowed s e)] :
    ∀ s es, Decidable (Meets step allowed s es)
  | _, [] => isTrue trivial
  | s, e :: rest => @instDecidableAnd _ _ _ (decidableMeets step allowed (step s e) rest)

theorem meets_append (step : σ → ε → σ) (allowed : σ → ε → Prop) (s : σ) (first second : List ε) :
    Meets step allowed s (first ++ second) ↔
      Meets step allowed s first ∧ Meets step allowed (first.foldl step s) second := by
  induction first generalizing s with
  | nil => simp [Meets]
  | cons e rest ih => simp [Meets, ih, and_assoc]

/-- A run whose inputs are allowed in any state. -/
theorem meets_of_all {step : σ → ε → σ} {allowed : σ → ε → Prop} {s : σ} {es : List ε}
    (all : ∀ e ∈ es, ∀ s, allowed s e) : Meets step allowed s es := by
  induction es generalizing s with
  | nil => trivial
  | cons e rest ih => exact ⟨all e (by simp) s, ih fun e' member => all e' (by simp [member])⟩

/-- What holds at the start and is kept by every allowed step holds after every allowed run. -/
theorem invariant {step : σ → ε → σ} {allowed : σ → ε → Prop} {inv : σ → Prop}
    (keep : ∀ s e, inv s → allowed s e → inv (step s e)) {s : σ} (start : inv s) {es : List ε}
    (meets : Meets step allowed s es) : inv (es.foldl step s) := by
  induction es generalizing s with
  | nil => exact start
  | cons e rest ih => exact ih (keep s e start meets.1) meets.2

/-- In an allowed run every step is good, if it is where the invariant holds. -/
theorem meets_good {step : σ → ε → σ} {allowed good : σ → ε → Prop} {inv : σ → Prop}
    (keep : ∀ s e, inv s → allowed s e → inv (step s e)) (fine : ∀ s e, inv s → allowed s e → good s e) {s : σ}
    (start : inv s) {es : List ε} (meets : Meets step allowed s es) : Meets step good s es := by
  induction es generalizing s with
  | nil => trivial
  | cons e rest ih =>
    obtain ⟨now, later⟩ := meets
    exact ⟨fine s e start now, ih (keep s e start now) later⟩

/-- An input of an allowed run comes behind the inputs before it. -/
theorem meets_at {step : σ → ε → σ} {allowed : σ → ε → Prop} {s : σ} {es : List ε} (meets : Meets step allowed s es) :
    Meets step (fun s' e => allowed s' e ∧ ∃ before after, es = before ++ e :: after ∧ s' = before.foldl step s) s es := by
  have main (before rest : List ε) (split : es = before ++ rest) (later : Meets step allowed (before.foldl step s) rest) :
      Meets step (fun s' e => allowed s' e ∧ ∃ before after, es = before ++ e :: after ∧ s' = before.foldl step s)
        (before.foldl step s) rest := by
    induction rest generalizing before with
    | nil => trivial
    | cons e rest ih =>
      obtain ⟨now, later⟩ := later
      refine ⟨⟨now, before, rest, split, rfl⟩, ?_⟩
      have next := ih (before ++ [e]) (by rw [split, List.append_assoc]; rfl)
      rw [List.foldl_append] at next
      exact next later
  exact main [] es rfl meets

theorem meets_imp {step : σ → ε → σ} {allowed good : σ → ε → Prop} (fine : ∀ s e, allowed s e → good s e) {s : σ}
    {es : List ε} (meets : Meets step allowed s es) : Meets step good s es := by
  induction es generalizing s with
  | nil => trivial
  | cons e rest ih => exact ⟨fine s e meets.1, ih meets.2⟩

/-- Two conditions that come to the same in the states with an invariant which the first keeps. -/
theorem meets_iff {step : σ → ε → σ} {allowed good : σ → ε → Prop} {inv : σ → Prop}
    (keep : ∀ s e, inv s → allowed s e → inv (step s e)) (same : ∀ s e, inv s → (allowed s e ↔ good s e)) {s : σ}
    (start : inv s) {es : List ε} : Meets step allowed s es ↔ Meets step good s es := by
  induction es generalizing s with
  | nil => exact Iff.rfl
  | cons e rest ih =>
    constructor
    · rintro ⟨now, later⟩
      exact ⟨(same s e start).mp now, (ih (keep s e start now)).mp later⟩
    · rintro ⟨now, later⟩
      have first := (same s e start).mpr now
      exact ⟨first, (ih (keep s e start first)).mpr later⟩

/-- How many inputs of a run are marked in the state they arrive in. -/
def count (step : σ → ε → σ) (marked : σ → ε → Bool) : σ → List ε → Nat
  | _, [] => 0
  | s, e :: rest => (marked s e).toNat + count step marked (step s e) rest

/-- Where marked inputs cost effort and no input adds any, effort bounds the marked inputs. -/
theorem count_le_effort {step : σ → ε → σ} {allowed : σ → ε → Prop} {inv : σ → Prop} {marked : σ → ε → Bool} (effort : σ → Nat)
    (keep : ∀ s e, inv s → allowed s e → inv (step s e))
    (pays : ∀ s e, inv s → allowed s e → (marked s e).toNat + effort (step s e) ≤ effort s) {s : σ} (start : inv s)
    {es : List ε} (meets : Meets step allowed s es) : count step marked s es + effort (es.foldl step s) ≤ effort s := by
  induction es generalizing s with
  | nil => simp [count]
  | cons e rest ih =>
    have first := pays s e start meets.1
    have later := ih (keep s e start meets.1) meets.2
    simp only [count, List.foldl_cons]
    omega

/-- The outputs of a run, and the state it ends in. -/
def trace (step : σ → ε → List ο × σ) : σ → List ε → List ο × σ
  | s, [] => ([], s)
  | s, e :: rest => ((step s e).1 ++ (trace step (step s e).2 rest).1, (trace step (step s e).2 rest).2)

theorem trace_one (step : σ → ε → List ο × σ) (s : σ) (e : ε) : trace step s [e] = step s e := by simp [trace]

theorem trace_append (step : σ → ε → List ο × σ) (s : σ) (first second : List ε) :
    trace step s (first ++ second) =
      ((trace step s first).1 ++ (trace step (trace step s first).2 second).1,
        (trace step (trace step s first).2 second).2) := by
  induction first generalizing s with
  | nil => rfl
  | cons e rest ih => simp only [List.cons_append, trace, ih, List.append_assoc]

/-- What every allowed step from a state with the invariant puts out, every allowed run puts out. -/
theorem trace_outputs {step : σ → ε → List ο × σ} {allowed : σ → ε → Prop} {inv : σ → Prop} {good : ο → Prop}
    (keep : ∀ s e, inv s → allowed s e → inv (step s e).2)
    (puts : ∀ s e, inv s → allowed s e → ∀ o ∈ (step s e).1, good o) {s : σ} (start : inv s) {es : List ε}
    (meets : Meets (fun s e => (step s e).2) allowed s es) : ∀ o ∈ (trace step s es).1, good o := by
  induction es generalizing s with
  | nil => nofun
  | cons e rest ih =>
    intro o member
    rcases List.mem_append.mp member with now | later
    · exact puts s e start meets.1 o now
    · exact ih (keep s e start meets.1) meets.2 o later

section
universe y
variable {ν : Type y} {step : σ → ε → List ο × σ}

/-- In the states that satisfy an invariant, the inputs marked `hidden` leave the view of the
    state alone and put out nothing that is visible; what the other inputs do follows from the
    view. Then a run and the same run without the marked inputs end in states of one view, and
    put out the same visible things. -/
theorem hidden_removed {view : σ → ν} {hidden : ε → Bool} {visible : ο → Bool} {allowed : σ → ε → Prop} {inv : σ → Prop}
    (keep : ∀ s e, inv s → allowed s e → inv (step s e).2)
    (silent : ∀ s e, inv s → hidden e = true → allowed s e →
      view (step s e).2 = view s ∧ ∀ o ∈ (step s e).1, visible o = false)
    (consistent : ∀ s t e, hidden e = false → view s = view t →
      view (step s e).2 = view (step t e).2 ∧ (step s e).1 = (step t e).1 ∧ ∀ o ∈ (step s e).1, visible o = true)
    {es : List ε} {s t : σ} (start : inv s) (same : view s = view t) (meets : Meets (fun s e => (step s e).2) allowed s es) :
    view (trace step s es).2 = view (trace step t (es.filter fun e => !hidden e)).2 ∧
      (trace step s es).1.filter visible = (trace step t (es.filter fun e => !hidden e)).1 := by
  induction es generalizing s t with
  | nil => exact ⟨same, rfl⟩
  | cons e rest ih =>
    obtain ⟨first, later⟩ := meets
    cases mark : hidden e with
    | true =>
      obtain ⟨kept, quiet⟩ := silent s e start mark first
      obtain ⟨state, outs⟩ := ih (keep s e start first) (kept.trans same) later
      have dropped : (e :: rest).filter (fun e => !hidden e) = rest.filter fun e => !hidden e :=
        List.filter_cons_of_neg (by simp [mark])
      have none_ : (step s e).1.filter visible = [] := List.filter_eq_nil_iff.mpr fun o member => by simp [quiet o member]
      rw [dropped]
      refine ⟨state, ?_⟩
      rw [trace, List.filter_append, none_, List.nil_append]
      exact outs
    | false =>
      obtain ⟨next, puts, shown⟩ := consistent s t e mark same
      obtain ⟨state, outs⟩ := ih (keep s e start first) next later
      have left : (e :: rest).filter (fun e => !hidden e) = e :: rest.filter fun e => !hidden e :=
        List.filter_cons_of_pos (by simp [mark])
      have all : (step s e).1.filter visible = (step s e).1 := List.filter_eq_self.mpr shown
      rw [left]
      refine ⟨state, ?_⟩
      simp only [trace, List.filter_append]
      rw [all, outs, puts]

end

section
universe x
variable {τ : Type x} {step : σ → ε → List ο × σ} {step' : τ → ε → List ο × τ}

/-- From `s` and `t` on the two machines put out the same, and end in states related by `post`. -/
def Agree (step : σ → ε → List ο × σ) (step' : τ → ε → List ο × τ) (es : List ε) (s : σ) (t : τ)
    (post : σ → τ → Prop) : Prop :=
  (trace step s es).1 = (trace step' t es).1 ∧ post (trace step s es).2 (trace step' t es).2

theorem agree_one {e : ε} {s s' : σ} {t t' : τ} {out : List ο} {post : σ → τ → Prop} (first : step s e = (out, s'))
    (second : step' t e = (out, t')) (related : post s' t') : Agree step step' [e] s t post := by
  simp only [Agree, trace_one, first, second]
  exact ⟨trivial, related⟩

theorem agree_append {es es' : List ε} {s : σ} {t : τ} {mid post : σ → τ → Prop}
    (first : Agree step step' es s t mid) (rest : ∀ s' t', mid s' t' → Agree step step' es' s' t' post) :
    Agree step step' (es ++ es') s t post := by
  obtain ⟨same, related⟩ := first
  obtain ⟨same', related'⟩ := rest _ _ related
  simp only [Agree, trace_append, same, same']
  exact ⟨trivial, related'⟩

end

end IoEdgeHub.Machine
