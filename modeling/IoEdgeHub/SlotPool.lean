import IoEdgeHub.Machine
import Mathlib.Logic.Function.Basic
import Mathlib.Data.Nat.ModEq

/-!
A producer that hands values to a consumer through a pool of slots, used in turn,
and a mailbox that carries the slots' numbers. The producer fills a slot in several
writes, the consumer empties it in several reads, and any move of the one may fall
between two moves of the other; nothing tells the producer that a slot is free.

In every run that never begins a slot while `size` handovers are outstanding, and in
which none is lost on the way, the consumer gets the values in the order in which
they were built, each once and as it was built. `Worker` is the producer that builds
a value from each message it handles (`worker_delivers`).
-/
namespace IoEdgeHub.SlotPool
open IoEdgeHub.Machine

universe u v w

/-- The pool's dimensions and the two programs: how a value is written to a slot, and
    what is read from one. The index counts modulo `wrap`. -/
structure Shape (α : Type u) (ρ : Type v) (γ : Type w) where
  size : Nat
  wrap : Nat
  depth : Nat
  writes : α → List (ρ → ρ)
  reads : List (ρ → γ → γ)
  blank : γ

/-- The slots, the mailbox, what either side is at, and what has been built and sent. -/
structure Pool (α : Type u) (ρ : Type v) (γ : Type w) where
  slots : Nat → ρ
  idx : Nat := 0
  writing : Option (α × Nat × List (ρ → ρ)) := none
  posted : List Nat := []
  reading : Option (Nat × γ × List (ρ → γ → γ)) := none
  built : List α := []
  sent : List γ := []

inductive Move (α : Type u)
  /-- The producer takes the next slot for a value. -/
  | build (value : α)
  | write
  /-- It posts the slot; `ok` is whether there was memory for the message. -/
  | post (ok : Bool)
  /-- The consumer takes the oldest message. -/
  | take
  | read
  /-- It sends what it has read; `ok` is whether it could. -/
  | send (ok : Bool)

section
variable {α : Type u} {ρ : Type v} {γ : Type w} (sh : Shape α ρ γ)

/-- One move; a side that is not ready for it, or a full mailbox, leaves all as it is. -/
def step (p : Pool α ρ γ) : Move α → Pool α ρ γ
  | .build value =>
    match p.writing with
    | none =>
      { p with
        idx := (p.idx + 1) % sh.wrap, writing := some (value, p.idx % sh.size, sh.writes value), built := p.built ++ [value] }
    | some _ => p
  | .write =>
    match p.writing with
    | some (value, slot, w :: todo) =>
      { p with slots := Function.update p.slots slot (w (p.slots slot)), writing := some (value, slot, todo) }
    | _ => p
  | .post ok =>
    match p.writing with
    | some (_, slot, []) =>
      if p.posted.length < sh.depth then { p with writing := none, posted := p.posted ++ if ok then [slot] else [] } else p
    | _ => p
  | .take =>
    match p.reading, p.posted with
    | none, slot :: rest => { p with reading := some (slot, sh.blank, sh.reads), posted := rest }
    | _, _ => p
  | .read =>
    match p.reading with
    | some (slot, got, r :: todo) => { p with reading := some (slot, r (p.slots slot) got, todo) }
    | _ => p
  | .send ok =>
    match p.reading with
    | some (_, got, []) => { p with reading := none, sent := p.sent ++ if ok then [got] else [] }
    | _ => p

/-- Whether the consumer is at a message. -/
def busy (p : Pool α ρ γ) : Nat := if p.reading.isSome then 1 else 0

/-- The handovers that are not finished. -/
def outstanding (p : Pool α ρ γ) : Nat := p.posted.length + busy p

/-- No slot is begun while all are outstanding, and nothing is lost. -/
def Allowed (p : Pool α ρ γ) : Move α → Prop
  | .build _ => p.writing = none → outstanding p < sh.size
  | .post ok | .send ok => ok = true
  | .write | .take | .read => True

/-- What the consumer reads from a slot that does not change. -/
def seen (r : ρ) : γ := sh.reads.foldl (fun got read => read r got) sh.blank

/-- A slot after all writes of a value. -/
def written (value : α) (r : ρ) : ρ := (sh.writes value).foldl (fun r w => w r) r

/-- The values are the ones that were built, each where its turn says. -/
structure Ordered (shown : α → γ) (p : Pool α ρ γ) : Prop where
  sent : p.sent = (p.built.take p.sent.length).map shown
  counted : p.sent.length + outstanding p + (if p.writing.isSome then 1 else 0) = p.built.length
  posted : p.posted = (List.range' (p.sent.length + busy p) p.posted.length).map (· % sh.size)
  index : p.idx % sh.size = p.built.length % sh.size
  held : ∀ j value, p.sent.length ≤ j → j < p.sent.length + outstanding p → p.built[j]? = some value →
    seen sh (p.slots (j % sh.size)) = shown value
  reading : ∀ slot got todo, p.reading = some (slot, got, todo) →
    slot = p.sent.length % sh.size ∧
      ∃ done, sh.reads = done ++ todo ∧ got = done.foldl (fun got read => read (p.slots slot) got) sh.blank
  writing : ∀ value slot todo, p.writing = some (value, slot, todo) →
    slot = (p.built.length - 1) % sh.size ∧ p.built[p.built.length - 1]? = some value ∧ outstanding p < sh.size ∧
      ∃ done r, sh.writes value = done ++ todo ∧ p.slots slot = done.foldl (fun r w => w r) r

variable {sh} {shown : α → γ} {p : Pool α ρ γ}

/-- Slots less than a whole turn apart differ. -/
theorem slot_ne {i j n : Nat} (before : i < j) (near : j < i + n) : i % n ≠ j % n := by
  intro same
  have divides : n ∣ j - i := (Nat.modEq_iff_dvd' (Nat.le_of_lt before)).mp same
  have reaches := Nat.le_of_dvd (by omega) divides
  omega

theorem outstanding_none (idle : p.reading = none) : outstanding p = p.posted.length := by
  simp [outstanding, busy, idle]

theorem outstanding_some {r : Nat × γ × List (ρ → γ → γ)} (at_ : p.reading = some r) : outstanding p = p.posted.length + 1 := by
  simp [outstanding, busy, at_]

theorem ordered_build (turn : sh.size ∣ sh.wrap) (ordered : Ordered sh shown p) {value : α}
    (free : p.writing = none → outstanding p < sh.size) : Ordered sh shown (step sh p (.build value)) := by
  obtain ⟨sent, counted, posted, index, held, reading, writing⟩ := ordered
  cases at_ : p.writing with
  | some w =>
    simp only [step, at_]
    exact ⟨sent, counted, posted, index, held, reading, writing⟩
  | none =>
    simp only [at_, Option.isSome_none, Bool.false_eq_true, if_false, Nat.add_zero] at counted
    simp only [step, at_]
    have room := free at_
    refine ⟨?_, ?_, posted, ?_, ?_, reading, ?_⟩
    · dsimp only
      rw [List.take_append_of_le_length (by omega)]
      exact sent
    · simp only [Option.isSome_some, if_true, List.length_append, List.length_singleton]
      exact congrArg (· + 1) counted
    · simp only [List.length_append, List.length_singleton]
      rw [Nat.mod_mod_of_dvd _ turn, Nat.add_mod, index, ← Nat.add_mod]
    · intro j other low high built
      rw [List.getElem?_append_left (by have := counted; simp only [outstanding, busy] at high this ⊢; omega)] at built
      exact held j other low high built
    · rintro _ _ _ ⟨⟩
      refine ⟨?_, ?_, room, [], p.slots (p.idx % sh.size), rfl, rfl⟩
      · simp only [List.length_append, List.length_singleton, Nat.add_sub_cancel]
        exact index
      · simp

theorem ordered_write (ordered : Ordered sh shown p) : Ordered sh shown (step sh p .write) := by
  obtain ⟨sent, counted, posted, index, held, reading, writing⟩ := ordered
  cases at_ : p.writing with
  | none =>
    simp only [step, at_]
    exact ⟨sent, counted, posted, index, held, reading, writing⟩
  | some w =>
    obtain ⟨value, slot, _ | ⟨w, todo⟩⟩ := w
    · simp only [step, at_]
      exact ⟨sent, counted, posted, index, held, reading, writing⟩
    simp only [at_, Option.isSome_some, if_true] at counted
    simp only [step, at_]
    obtain ⟨own, last, room, done, r, programme, content⟩ := writing value slot (w :: todo) at_
    -- the slots that are outstanding come less than a whole turn before the one that is written
    have apart (j : Nat) (low : p.sent.length ≤ j) (high : j < p.sent.length + outstanding p) : j % sh.size ≠ slot := by
      rw [own]
      exact slot_ne (by omega) (by omega)
    have kept (j : Nat) (low : p.sent.length ≤ j) (high : j < p.sent.length + outstanding p) :
        Function.update p.slots slot (w (p.slots slot)) (j % sh.size) = p.slots (j % sh.size) :=
      Function.update_of_ne (apart j low high) _ _
    refine ⟨sent, counted, posted, index, ?_, ?_, ?_⟩
    · intro j other low high built
      dsimp only
      rw [kept j low high]
      exact held j other low high built
    · intro slot' got todo' at_'
      obtain ⟨first, done', programme', got_⟩ := reading slot' got todo' at_'
      have taken : outstanding p = p.posted.length + 1 := outstanding_some at_'
      refine ⟨first, done', programme', ?_⟩
      dsimp only
      rw [first, kept p.sent.length (Nat.le_refl _) (by omega), ← first]
      exact got_
    · rintro _ _ _ ⟨⟩
      refine ⟨own, last, room, done ++ [w], r, by rw [programme, List.append_assoc]; rfl, ?_⟩
      dsimp only
      rw [Function.update_self, content, List.foldl_append]
      rfl

theorem ordered_post (faithful : ∀ value r, seen sh (written sh value r) = shown value) (ordered : Ordered sh shown p) :
    Ordered sh shown (step sh p (.post true)) := by
  obtain ⟨sent, counted, posted, index, held, reading, writing⟩ := ordered
  cases at_ : p.writing with
  | none =>
    simp only [step, at_]
    exact ⟨sent, counted, posted, index, held, reading, writing⟩
  | some w =>
    obtain ⟨value, slot, _ | ⟨w, todo⟩⟩ := w
    swap
    · simp only [step, at_]
      exact ⟨sent, counted, posted, index, held, reading, writing⟩
    simp only [step, at_]
    split_ifs with room
    swap
    · exact ⟨sent, counted, posted, index, held, reading, writing⟩
    simp only [at_, Option.isSome_some, if_true] at counted
    obtain ⟨own, last, _, done, r, programme, content⟩ := writing value slot [] at_
    have more (q : Pool α ρ γ) (longer : q.posted.length = p.posted.length + 1) (same : q.reading = p.reading) :
        outstanding q = outstanding p + 1 := by
      simp only [outstanding, busy, same, longer]
      omega
    have next : outstanding { p with writing := none, posted := p.posted ++ [slot] } = outstanding p + 1 :=
      more _ (by simp) rfl
    refine ⟨sent, ?_, ?_, index, ?_, reading, nofun⟩
    · show p.sent.length + outstanding { p with writing := none, posted := p.posted ++ [slot] } + 0 = p.built.length
      rw [next]
      omega
    · simp only [List.length_append, List.length_singleton]
      show p.posted ++ [slot] = (List.range' (p.sent.length + busy p) (p.posted.length + 1)).map (· % sh.size)
      rw [List.range'_concat, List.map_append, ← posted, own]
      simp only [outstanding] at counted
      rw [show p.built.length - 1 = p.sent.length + busy p + 1 * p.posted.length by omega]
      rfl
    · intro j other low high built
      have high : j < p.sent.length + outstanding { p with writing := none, posted := p.posted ++ [slot] } := high
      rw [next] at high
      by_cases old : j < p.sent.length + outstanding p
      · exact held j other low old built
      · have newest : j = p.built.length - 1 := by dsimp only at low; omega
        rw [newest] at built ⊢
        rw [last] at built
        cases built
        rw [← own, content]
        rw [List.append_nil] at programme
        rw [← programme]
        exact faithful value r

theorem ordered_take (ordered : Ordered sh shown p) : Ordered sh shown (step sh p .take) := by
  obtain ⟨sent, counted, posted, index, held, reading, writing⟩ := ordered
  cases at_ : p.reading with
  | some r =>
    simp only [step, at_]
    exact ⟨sent, counted, posted, index, held, reading, writing⟩
  | none =>
    cases ahead : p.posted with
    | nil =>
      simp only [step, at_, ahead]
      exact ⟨sent, counted, posted, index, held, reading, writing⟩
    | cons slot rest =>
      simp only [step, at_, ahead]
      have same : outstanding { p with reading := some (slot, sh.blank, sh.reads), posted := rest } = outstanding p := by
        rw [outstanding_none at_, ahead]
        rfl
      have idle : busy p = 0 := by simp [busy, at_]
      rw [ahead, idle, List.length_cons, List.range'_succ, List.map_cons] at posted
      obtain ⟨first, others⟩ := List.cons.inj posted
      refine ⟨sent, ?_, others, index, ?_, ?_, ?_⟩
      · rw [same]
        exact counted
      · intro j value low high built
        rw [same] at high
        exact held j value low high built
      · rintro _ _ _ ⟨⟩
        exact ⟨first, [], rfl, rfl⟩
      · rw [same]
        exact writing

theorem ordered_read (ordered : Ordered sh shown p) : Ordered sh shown (step sh p .read) := by
  obtain ⟨sent, counted, posted, index, held, reading, writing⟩ := ordered
  cases at_ : p.reading with
  | none =>
    simp only [step, at_]
    exact ⟨sent, counted, posted, index, held, reading, writing⟩
  | some r =>
    obtain ⟨slot, got, _ | ⟨r, todo⟩⟩ := r
    · simp only [step, at_]
      exact ⟨sent, counted, posted, index, held, reading, writing⟩
    simp only [step, at_]
    obtain ⟨first, done, programme, got_⟩ := reading slot got (r :: todo) at_
    have same : busy { p with reading := some (slot, r (p.slots slot) got, todo) } = busy p := by simp [busy, at_]
    have still : outstanding { p with reading := some (slot, r (p.slots slot) got, todo) } = outstanding p :=
      congrArg (p.posted.length + ·) same
    refine ⟨sent, ?_, ?_, index, ?_, ?_, ?_⟩
    · rw [still]
      exact counted
    · rw [same]
      exact posted
    · rw [still]
      exact held
    · rintro _ _ _ ⟨⟩
      refine ⟨first, done ++ [r], by rw [programme, List.append_assoc]; rfl, ?_⟩
      rw [List.foldl_append, ← got_]
      rfl
    · rw [still]
      exact writing

theorem ordered_send (ordered : Ordered sh shown p) : Ordered sh shown (step sh p (.send true)) := by
  obtain ⟨sent, counted, posted, index, held, reading, writing⟩ := ordered
  cases at_ : p.reading with
  | none =>
    simp only [step, at_]
    exact ⟨sent, counted, posted, index, held, reading, writing⟩
  | some r =>
    obtain ⟨slot, got, _ | ⟨r, todo⟩⟩ := r
    swap
    · simp only [step, at_]
      exact ⟨sent, counted, posted, index, held, reading, writing⟩
    simp only [step, at_, if_true]
    obtain ⟨first, done, programme, got_⟩ := reading slot got [] at_
    have one : outstanding p = p.posted.length + 1 := outstanding_some at_
    have fewer : outstanding { p with reading := none, sent := p.sent ++ [got] } = p.posted.length := rfl
    have length : (p.sent ++ [got]).length = p.sent.length + 1 := by simp
    have inside : p.sent.length < p.built.length := by omega
    -- what has been read is what the slot of the oldest handover holds
    have value : got = shown p.built[p.sent.length] := by
      rw [got_, first]
      rw [List.append_nil] at programme
      rw [← programme]
      exact held p.sent.length _ (Nat.le_refl _) (by omega) (List.getElem?_eq_getElem inside)
    refine ⟨?_, ?_, ?_, index, ?_, nofun, ?_⟩
    · dsimp only
      rw [length, List.take_succ_eq_append_getElem inside, List.map_append, ← sent, value]
      rfl
    · rw [fewer]
      dsimp only
      omega
    · have busy_ : busy p = 1 := by simp [busy, at_]
      rw [busy_] at posted
      show p.posted = (List.range' ((p.sent ++ [got]).length + 0) p.posted.length).map (· % sh.size)
      rw [length]
      exact posted
    · intro j other low high built
      rw [fewer] at high
      dsimp only at low high
      exact held j other (by omega) (by omega) built
    · intro other slot' todo at_'
      obtain ⟨own, last, room, rest⟩ := writing other slot' todo at_'
      exact ⟨own, last, by rw [fewer]; omega, rest⟩

theorem ordered_step (turn : sh.size ∣ sh.wrap) (faithful : ∀ value r, seen sh (written sh value r) = shown value)
    (ordered : Ordered sh shown p) {m : Move α} (allowed : Allowed sh p m) : Ordered sh shown (step sh p m) := by
  cases m with
  | build value => exact ordered_build turn ordered allowed
  | write => exact ordered_write ordered
  | post ok =>
    obtain rfl : ok = true := allowed
    exact ordered_post faithful ordered
  | take => exact ordered_take ordered
  | read => exact ordered_read ordered
  | send ok =>
    obtain rfl : ok = true := allowed
    exact ordered_send ordered

theorem ordered_start (sh : Shape α ρ γ) (shown : α → γ) (slots : Nat → ρ) : Ordered sh shown { slots := slots } := by
  refine ⟨rfl, rfl, rfl, rfl, ?_, nofun, nofun⟩
  intro j value low high built
  cases built

/-- In order, what was sent is what was built first, and what is left is on its way. -/
theorem ordered_sent (ordered : Ordered sh shown p) :
    p.sent = (p.built.take p.sent.length).map shown ∧
      (p.writing = none → p.posted = [] → p.reading = none → p.sent = p.built.map shown) := by
  refine ⟨ordered.sent, fun idle empty done => ?_⟩
  have counted := ordered.counted
  rw [outstanding_none done, empty, idle] at counted
  have all : p.sent.length = p.built.length := by simpa using counted
  have sent := ordered.sent
  rw [all, List.take_length] at sent
  exact sent

variable {μ : Type*} {σ : Type*}

/-- A producer with a state of its own, and the messages it has handled. -/
structure Worker (σ μ : Type*) (α : Type u) (ρ : Type v) (γ : Type w) where
  state : σ
  pool : Pool α ρ γ
  handled : List μ := []

inductive Event (μ : Type*)
  | handle (m : μ)
  | write
  | post (ok : Bool)
  | take
  | read
  | send (ok : Bool)

/-- The value built from each of some messages, handled one after the other. -/
def replies (work : μ → σ → α × σ) : σ → List μ → List α
  | _, [] => []
  | s, m :: rest => (work m s).1 :: replies work (work m s).2 rest

/-- The state after some messages. -/
def state_after (work : μ → σ → α × σ) (s : σ) (ms : List μ) : σ := ms.foldl (fun s m => (work m s).2) s

/-- A message is taken when the value of the one before has been posted. -/
def worker_step (sh : Shape α ρ γ) (work : μ → σ → α × σ) (w : Worker σ μ α ρ γ) : Event μ → Worker σ μ α ρ γ
  | .handle m =>
    match w.pool.writing with
    | none => ⟨(work m w.state).2, step sh w.pool (.build (work m w.state).1), w.handled ++ [m]⟩
    | some _ => w
  | .write => { w with pool := step sh w.pool .write }
  | .post ok => { w with pool := step sh w.pool (.post ok) }
  | .take => { w with pool := step sh w.pool .take }
  | .read => { w with pool := step sh w.pool .read }
  | .send ok => { w with pool := step sh w.pool (.send ok) }

/-- No message is taken up while all slots are outstanding, and nothing is lost. -/
def Paced (sh : Shape α ρ γ) (w : Worker σ μ α ρ γ) : Event μ → Prop
  | .handle _ => w.pool.writing = none → outstanding w.pool < sh.size
  | .post ok | .send ok => ok = true
  | .write | .take | .read => True

instance (sh : Shape α ρ γ) (w : Worker σ μ α ρ γ) : ∀ e, Decidable (Paced sh w e)
  | .handle _ => inferInstanceAs (Decidable (w.pool.writing = none → outstanding w.pool < sh.size))
  | .post ok => inferInstanceAs (Decidable (ok = true))
  | .send ok => inferInstanceAs (Decidable (ok = true))
  | .write => isTrue trivial
  | .take => isTrue trivial
  | .read => isTrue trivial

/-- Everything that was built has been sent. -/
def Drained (p : Pool α ρ γ) : Prop := p.writing = none ∧ p.posted = [] ∧ p.reading = none

theorem replies_append (work : μ → σ → α × σ) (s : σ) (ms : List μ) (m : μ) :
    replies work s (ms ++ [m]) = replies work s ms ++ [(work m (state_after work s ms)).1] := by
  induction ms generalizing s with
  | nil => rfl
  | cons first rest ih => exact congrArg ((work first s).1 :: ·) (ih (work first s).2)

/-- The other moves build nothing. -/
theorem built_kept (sh : Shape α ρ γ) (p : Pool α ρ γ) {m : Move α} (other : ∀ value, m ≠ .build value) :
    (step sh p m).built = p.built := by
  cases m with
  | build value => exact absurd rfl (other value)
  | write => simp only [step]; split <;> rfl
  | post ok =>
    simp only [step]
    split
    · split_ifs <;> rfl
    · rfl
  | take => simp only [step]; split <;> rfl
  | read => simp only [step]; split <;> rfl
  | send ok => simp only [step]; split <;> rfl

/-- The pool is in order, and the values were built from the messages. -/
structure Serving (sh : Shape α ρ γ) (work : μ → σ → α × σ) (shown : α → γ) (s : σ) (w : Worker σ μ α ρ γ) : Prop where
  ordered : Ordered sh shown w.pool
  state : w.state = state_after work s w.handled
  built : w.pool.built = replies work s w.handled

theorem serving_step {work : μ → σ → α × σ} {s : σ} {w : Worker σ μ α ρ γ} (turn : sh.size ∣ sh.wrap)
    (faithful : ∀ value r, seen sh (written sh value r) = shown value) (serving : Serving sh work shown s w) {e : Event μ}
    (paced : Paced sh w e) : Serving sh work shown s (worker_step sh work w e) := by
  obtain ⟨ordered, state, built⟩ := serving
  have other {m : Move α} (allowed : Allowed sh w.pool m) (other : ∀ value, m ≠ .build value) :
      Serving sh work shown s { w with pool := step sh w.pool m } :=
    ⟨ordered_step turn faithful ordered allowed, state, (built_kept sh w.pool other).trans built⟩
  cases e with
  | handle m =>
    cases at_ : w.pool.writing with
    | some r =>
      simp only [worker_step, at_]
      exact ⟨ordered, state, built⟩
    | none =>
      simp only [worker_step, at_]
      refine ⟨ordered_build turn ordered paced, ?_, ?_⟩
      · simp only [state_after, List.foldl_append, List.foldl_cons, List.foldl_nil]
        rw [state]
        rfl
      · simp only [step, at_]
        rw [replies_append, built, state]
  | write => exact other trivial nofun
  | post ok => exact other paced nofun
  | take => exact other trivial nofun
  | read => exact other trivial nofun
  | send ok => exact other paced nofun

/-- In every paced run, what has been sent is what was built from the first messages, in their order and each
    once, and from all of them when nothing is on its way. -/
theorem worker_delivers {work : μ → σ → α × σ} (turn : sh.size ∣ sh.wrap)
    (faithful : ∀ value r, seen sh (written sh value r) = shown value) (s : σ) (slots : Nat → ρ) {es : List (Event μ)}
    (paced : Meets (worker_step sh work) (Paced sh) ⟨s, { slots := slots }, []⟩ es) :
    let w := es.foldl (worker_step sh work) ⟨s, { slots := slots }, []⟩
    w.pool.sent = ((replies work s w.handled).take w.pool.sent.length).map shown ∧
      (Drained w.pool → w.pool.sent = (replies work s w.handled).map shown) := by
  intro w
  have start : Serving sh work shown s ⟨s, { slots := slots }, []⟩ := ⟨ordered_start sh shown slots, rfl, rfl⟩
  have serving : Serving sh work shown s w := @invariant _ _ (worker_step sh work) (Paced sh) (Serving sh work shown s)
    (fun _ _ serving paced => serving_step turn faithful serving paced) _ start es paced
  obtain ⟨first, all⟩ := ordered_sent serving.ordered
  rw [serving.built] at first all
  exact ⟨first, fun drained => all drained.1 drained.2.1 drained.2.2⟩

end

end IoEdgeHub.SlotPool
