import IoEdgeHub.ConfigStore
import IoEdgeHub.Machine

/-!
Histories of the configuration store: calls of its functions, each with the
fates of its flash operations, from the static variables at reset. A call in
which power is lost is followed by a reset, so that nothing but the flash
survives it.

Without faults the two slots and the static variables stay in step
(`Coherent`), and a save that is cut short leaves the old configuration or the
new one (`save_power_loss_atomic`). With faults a successful save is durable as
long as no step takes the store to "no slot in use" while slot B still holds a
record of generation two or more (`save_durable`); `save_not_durable` shows a
run in which one does.
-/
namespace IoEdgeHub.ConfigHistory
open IoEdgeHub.Nor IoEdgeHub.W25qxx IoEdgeHub.ConfigStore IoEdgeHub.Machine

/-- The calls that change the store. -/
inductive Call
  | init
  | save (cfg : IoCfg)
  | eraseAll
  deriving DecidableEq, Repr

def Call.isSave : Call → Bool
  | .save _ => true
  | _ => false

/-- The function a call stands for; `config_store_erase_all` returns nothing. -/
def Call.body : Call → Store → Bool × Store
  | .init, s => config_store_init s
  | .save cfg, s => config_store_save cfg s
  | .eraseAll, s => (true, config_store_erase_all s)

/-- The store with the given fates ahead of it. -/
def Store.facing (fates : List Fate) (s : Store) : Store := ⟨s.ram, { mem := s.dev.mem, fates := fates }⟩

/-- What is left of a call's result: if power was lost in it, it returned nothing
    and the static variables are at reset when the device is up again. -/
def settle (r : Bool × Store) : Bool × Store :=
  if r.2.dev.power then (r.1, ⟨r.2.ram, { mem := r.2.dev.mem }⟩) else (false, ⟨Ram.zero, { mem := r.2.dev.mem }⟩)

/-- One call under the given fates. -/
def perform (s : Store) (call : Call) (fates : List Fate) : Bool × Store := settle (call.body (Store.facing fates s))

/-- A device at reset over the given flash. -/
def start (m : Mem) : Store := ⟨Ram.zero, { mem := m }⟩

/-- A history with working flash. -/
def history (s : Store) (calls : List Call) : Store := calls.foldl (fun s call => (perform s call []).2) s

/-- The records the saves of a history with working flash write. -/
def written : Store → List Call → List (List UInt8)
  | _, [] => []
  | s, call :: rest =>
    (match call with
     | .save cfg => if s.ram.inited then [record cfg (saveGen s.ram)] else []
     | _ => []) ++ written (perform s call []).2 rest

/-- The slot that is not the given one; for no slot at all it is slot A. -/
def other (slot : Nat) : Nat := if slot = CFG_SLOT_A then CFG_SLOT_B else CFG_SLOT_A

theorem other_other {slot : Nat} (is : slot = CFG_SLOT_A ∨ slot = CFG_SLOT_B) : other (other slot) = slot := by
  rcases is with rfl | rfl <;> rfl

theorem other_slot (slot : Nat) : other slot = CFG_SLOT_A ∨ other slot = CFG_SLOT_B := by
  unfold other; split_ifs
  · exact .inr rfl
  · exact .inl rfl

/-- A slot reads the same in memories that differ only in the other one. -/
theorem slotAt_frame {m m' : Mem} {slot : Nat} (is : slot = CFG_SLOT_A ∨ slot = CFG_SLOT_B)
    (frame : ∀ a, (a < other slot ∨ other slot + CFG_SLOT_SIZE ≤ a) → m' a = m a) : slotAt m' slot = slotAt m slot := by
  have apart : slot + CFG_REC_LEN ≤ other slot ∨ other slot + CFG_SLOT_SIZE ≤ slot := by
    rcases is with rfl | rfl <;> decide
  unfold slotAt
  rw [bytesAt_congr fun a low high => frame a (by omega)]

theorem settle_mem (r : Bool × Store) : (settle r).2.dev.mem = r.2.dev.mem := by
  unfold settle; split_ifs <;> rfl

theorem settle_done {r : Bool × Store} (done : (settle r).1 = true) : r.1 = true ∧ (settle r).2.ram = r.2.ram := by
  unfold settle at done ⊢
  split_ifs at done ⊢
  exact ⟨done, rfl⟩

theorem settle_failed {r : Bool × Store} (failed : (settle r).1 = false) :
    r.1 = false ∧ (settle r).2.ram = r.2.ram ∨ (settle r).2.ram = Ram.zero := by
  unfold settle at failed ⊢
  split_ifs at failed ⊢
  · exact .inl ⟨failed, rfl⟩
  · exact .inr rfl

theorem perform_init_mem (s : Store) (fates : List Fate) : (perform s .init fates).2.dev.mem = s.dev.mem := by
  rw [perform, settle_mem]
  exact config_store_init_mem (Store.facing fates s)

theorem perform_init_done {s : Store} {fates : List Fate} (done : (perform s .init fates).1 = true) :
    (perform s .init fates).2.ram = choose (readSlot s.dev.mem CFG_SLOT_A) (readSlot s.dev.mem CFG_SLOT_B) := by
  obtain ⟨returned, ram⟩ := settle_done done
  rw [perform, ram]
  exact config_store_init_done returned

theorem perform_init_working (s : Store) :
    perform s .init [] =
      (true, ⟨choose (readSlot s.dev.mem CFG_SLOT_A) (readSlot s.dev.mem CFG_SLOT_B), { mem := s.dev.mem }⟩) := by
  have run := @config_store_init_working (Store.facing [] s) rfl rfl
  rw [perform, Call.body, run]
  rfl

/-- Whatever becomes of it, a save leaves everything outside its target slot alone. -/
theorem perform_save_outside (s : Store) (cfg : IoCfg) (fates : List Fate) {a : Nat}
    (outside : a < saveTarget s.ram ∨ saveTarget s.ram + CFG_SLOT_SIZE ≤ a) :
    (perform s (.save cfg) fates).2.dev.mem a = s.dev.mem a := by
  have frame := @save_record_outside (saveTarget s.ram) (Store.facing fates s).dev (record cfg (saveGen s.ram)) rfl a outside
  rw [perform, settle_mem, Call.body]
  unfold config_store_save
  split
  · rfl
  · simp only [Store.facing] at frame ⊢
    split
    · rename_i step; rw [step] at frame; exact frame
    · rename_i step; rw [step] at frame; exact frame

/-- A save that returned 0 has stored the record and made its slot the current one. -/
theorem perform_save_done {s : Store} {cfg : IoCfg} {fates : List Fate}
    (done : (perform s (.save cfg) fates).1 = true) :
    s.ram.inited = true ∧ (perform s (.save cfg) fates).2.ram = ⟨cfg, saveGen s.ram, saveTarget s.ram, true⟩ ∧
      slotAt (perform s (.save cfg) fates).2.dev.mem (saveTarget s.ram) = some (cfg, saveGen s.ram) := by
  obtain ⟨returned, ram⟩ := settle_done done
  rw [perform, ram, settle_mem]
  simp only [Call.body, config_store_save, Store.facing] at returned ⊢
  have inited : s.ram.inited = true := by
    by_contra idle
    rw [Bool.not_eq_true] at idle
    simp [idle] at returned
  simp only [inited, Bool.not_true, Bool.false_eq_true, if_false] at returned ⊢
  split at returned
  · simp at returned
  · rename_i d step
    have stored := save_record_done (record_length cfg (saveGen s.ram)) (congrArg Prod.fst step)
    rw [step] at stored
    refine ⟨trivial, rfl, ?_⟩
    rw [slotAt, stored, slot_check_record, saveGen, Nat.mod_mod]

/-- A save that did not return 0 leaves the static variables alone, unless power was lost. -/
theorem perform_save_failed {s : Store} {cfg : IoCfg} {fates : List Fate}
    (failed : (perform s (.save cfg) fates).1 = false) :
    (perform s (.save cfg) fates).2.ram = s.ram ∨ (perform s (.save cfg) fates).2.ram = Ram.zero := by
  rcases settle_failed failed with ⟨returned, ram⟩ | ram
  · left
    rw [perform, ram]
    simp only [Call.body, config_store_save] at returned ⊢
    split at returned
    · rename_i idle; rw [if_pos idle]; rfl
    · rename_i busy
      rw [if_neg busy]
      split at returned
      · rfl
      · simp at returned
  · exact .inr ram

theorem perform_save_working {s : Store} (inited : s.ram.inited = true) (cfg : IoCfg) :
    (perform s (.save cfg) []).1 = true := by
  have run := @save_record_working (saveTarget s.ram) (Store.facing [] s).dev (record cfg (saveGen s.ram))
    (saveTarget_cases s.ram) rfl rfl rfl
  have ram : (Store.facing [] s).ram = s.ram := rfl
  simp only [perform, Call.body, config_store_save, ram, inited, run]
  rfl

theorem perform_save_idle {s : Store} (idle : s.ram.inited = false) (cfg : IoCfg) (fates : List Fate) :
    perform s (.save cfg) fates = (false, ⟨s.ram, { mem := s.dev.mem }⟩) := by
  simp [perform, settle, Call.body, config_store_save, Store.facing, idle]

theorem readSlot_some {m : Mem} {addr : Nat} {cfg : IoCfg} {gen : Nat} (at_ : slotAt m addr = some (cfg, gen)) :
    readSlot m addr = .valid cfg gen := by
  simp [readSlot, at_]

theorem readSlot_none {m : Mem} {addr : Nat} (at_ : slotAt m addr = none) : readSlot m addr = .invalid := by
  simp [readSlot, at_]

/-- A record of a higher generation than the other slot's is the one loaded. -/
theorem choose_newest {m : Mem} {slot : Nat} {cfg : IoCfg} {gen : Nat} (is : slot = CFG_SLOT_A ∨ slot = CFG_SLOT_B)
    (held : slotAt m slot = some (cfg, gen))
    (older : ∀ c g, slotAt m (other slot) = some (c, g) → g < gen) :
    choose (readSlot m CFG_SLOT_A) (readSlot m CFG_SLOT_B) = ⟨cfg, gen, slot, true⟩ := by
  rcases is with rfl | rfl
  · rw [readSlot_some held]
    cases at_ : slotAt m CFG_SLOT_B with
    | none => rw [readSlot_none at_]; rfl
    | some r =>
      have lower : r.2 < gen := older r.1 r.2 at_
      rw [readSlot_some at_, choose, if_pos (by omega)]
  · rw [readSlot_some held]
    cases at_ : slotAt m CFG_SLOT_A with
    | none => rw [readSlot_none at_]; rfl
    | some r =>
      have lower : r.2 < gen := older r.1 r.2 at_
      rw [readSlot_some at_, choose, if_neg (by omega)]

/-- Nothing has been saved yet. -/
structure Fresh (s : Store) (past : List (List UInt8)) : Prop where
  slot : s.ram.cur_slot = 0
  gen : s.ram.cur_gen = 0
  get : config_store_get s = config_store_get_defaults
  slotA : slotAt s.dev.mem CFG_SLOT_A = none
  slotB : slotAt s.dev.mem CFG_SLOT_B = none
  none_ : past = []

/-- The current slot holds the current configuration, the other one nothing that
    would be taken for newer, and no record of the past is newer or differs at the
    current generation. -/
structure Stored (s : Store) (past : List (List UInt8)) : Prop where
  inited : s.ram.inited = true
  slot : s.ram.cur_slot = CFG_SLOT_A ∨ s.ram.cur_slot = CFG_SLOT_B
  held : slotAt s.dev.mem s.ram.cur_slot = some (s.ram.cur, s.ram.cur_gen)
  older : ∀ cfg gen, slotAt s.dev.mem (other s.ram.cur_slot) = some (cfg, gen) → gen < s.ram.cur_gen
  known : ∀ bytes ∈ past, ∀ cfg gen, slot_check bytes = some (cfg, gen) →
    gen < s.ram.cur_gen ∨ gen = s.ram.cur_gen ∧ cfg = s.ram.cur

/-- What a history with working flash and at most `count` saves leaves behind. -/
def Coherent (s : Store) (past : List (List UInt8)) (count : Nat) : Prop :=
  s.ram.cur_gen ≤ count ∧ (Fresh s past ∨ Stored s past)

theorem coherent_start {m : Mem} (slotA : slotAt m CFG_SLOT_A = none) (slotB : slotAt m CFG_SLOT_B = none) :
    Coherent (start m) [] 0 :=
  ⟨Nat.le_refl 0, .inl ⟨rfl, rfl, rfl, slotA, slotB, rfl⟩⟩

theorem coherent_init {s : Store} {past : List (List UInt8)} {count : Nat} (inv : Coherent s past count) :
    Coherent (perform s .init []).2 past count := by
  rw [perform_init_working]
  obtain ⟨bound, fresh | stored⟩ := inv
  · have load : choose (readSlot s.dev.mem CFG_SLOT_A) (readSlot s.dev.mem CFG_SLOT_B) =
        ⟨config_store_get_defaults, 0, 0, true⟩ := by
      rw [readSlot_none fresh.slotA, readSlot_none fresh.slotB]; rfl
    refine ⟨by rw [load]; exact Nat.zero_le _, .inl ⟨?_, ?_, ?_, fresh.slotA, fresh.slotB, fresh.none_⟩⟩
    · rw [load]
    · rw [load]
    · rw [load]; rfl
  · have load := choose_newest stored.slot stored.held stored.older
    have same : (⟨s.ram.cur, s.ram.cur_gen, s.ram.cur_slot, true⟩ : Ram) = s.ram := by
      rw [← stored.inited]
    rw [load, same]
    exact ⟨bound, .inr ⟨stored.inited, stored.slot, stored.held, stored.older, stored.known⟩⟩

theorem saveTarget_eq (r : Ram) : saveTarget r = other r.cur_slot := rfl

theorem coherent_save {s : Store} {past : List (List UInt8)} {count : Nat} (inv : Coherent s past count)
    (room : count + 1 < 2^32) (inited : s.ram.inited = true) (cfg : IoCfg) :
    Coherent (perform s (.save cfg) []).2 (past ++ [record cfg (saveGen s.ram)]) (count + 1) := by
  have done := perform_save_working inited cfg
  obtain ⟨_, ram, held⟩ := perform_save_done done
  have bound : s.ram.cur_gen ≤ count := inv.1
  have gen : saveGen s.ram = s.ram.cur_gen + 1 := Nat.mod_eq_of_lt (by omega)
  have target : saveTarget s.ram = CFG_SLOT_A ∨ saveTarget s.ram = CFG_SLOT_B := saveTarget_cases s.ram
  refine ⟨by rw [ram, gen]; exact Nat.succ_le_succ bound, .inr ⟨?_, ?_, ?_, ?_, ?_⟩⟩
  · rw [ram]
  · rw [ram]; exact target
  · rw [ram]; exact held
  · -- the slot that was current is the other one now, and this save left it alone
    intro c g at_
    rw [ram] at at_ ⊢
    rw [gen]
    have frame : slotAt (perform s (.save cfg) []).2.dev.mem (other (saveTarget s.ram)) =
        slotAt s.dev.mem (other (saveTarget s.ram)) := by
      apply slotAt_frame (other_slot _)
      intro a outside
      rw [other_other target] at outside
      exact perform_save_outside s cfg [] outside
    rw [frame, saveTarget_eq] at at_
    obtain ⟨_, fresh | stored⟩ := inv
    · rw [fresh.slot, show other (other 0) = CFG_SLOT_B from rfl, fresh.slotB] at at_
      simp at at_
    · rw [other_other stored.slot, stored.held] at at_
      cases at_; exact Nat.lt_succ_self _
  · intro bytes member c g check
    rw [ram]
    simp only
    rw [gen]
    rcases List.mem_append.mp member with before | now
    · obtain ⟨_, fresh | stored⟩ := inv
      · rw [fresh.none_] at before; simp at before
      · rcases stored.known bytes before c g check with lower | ⟨same, _⟩
        · left; omega
        · left; omega
    · rw [List.mem_singleton.mp now, slot_check_record, Nat.mod_eq_of_lt (by omega)] at check
      cases check
      exact .inr ⟨gen, rfl⟩

/-- The number of saves among some calls. -/
def saves (calls : List Call) : Nat := calls.countP Call.isSave

@[simp] theorem saves_nil : saves [] = 0 := rfl
@[simp] theorem saves_init (rest : List Call) : saves (.init :: rest) = saves rest :=
  List.countP_cons_of_neg (by simp [Call.isSave])
@[simp] theorem saves_save (cfg : IoCfg) (rest : List Call) : saves (.save cfg :: rest) = saves rest + 1 :=
  List.countP_cons_of_pos rfl

/-- Every history of loads and saves with working flash keeps the store coherent. -/
theorem coherent_history {s : Store} {past : List (List UInt8)} {count : Nat} (inv : Coherent s past count)
    (calls : List Call) (noReset : Call.eraseAll ∉ calls) (room : count + saves calls < 2^32) :
    Coherent (history s calls) (past ++ written s calls) (count + saves calls) := by
  induction calls generalizing s past count with
  | nil => simpa [history, written] using inv
  | cons call rest ih =>
    have noReset' : Call.eraseAll ∉ rest := fun later => noReset (List.mem_cons_of_mem _ later)
    cases call with
    | init =>
      have next := ih (coherent_init inv) noReset' (by simpa using room)
      simpa [history, written] using next
    | eraseAll => simp at noReset
    | save cfg =>
      have more : count + 1 + saves rest < 2^32 := by rw [saves_save] at room; omega
      cases inited : s.ram.inited with
      | true =>
        have next := ih (coherent_save inv (by omega) inited cfg) noReset' more
        simpa [history, written, inited, Nat.add_assoc, Nat.add_comm 1] using next
      | false =>
        -- before the first load a save does nothing
        have same : (perform s (.save cfg) []).2 = ⟨s.ram, { mem := s.dev.mem }⟩ := by
          rw [perform_save_idle inited]
        have idle : Coherent (perform s (.save cfg) []).2 past (count + 1) := by
          rw [same]
          obtain ⟨bound, fresh | stored⟩ := inv
          · exact ⟨by simp only; omega, .inl ⟨fresh.slot, fresh.gen, fresh.get, fresh.slotA, fresh.slotB, fresh.none_⟩⟩
          · rw [stored.inited] at inited; simp at inited
        have next := ih idle noReset' more
        simpa [history, written, inited, Nat.add_assoc, Nat.add_comm 1] using next

/-! ### Power loss inside a save -/

/-- A partly erased or partly programmed slot does not pass the checks by
    coincidence: only as a whole record written before, or as the new one. -/
def NoCoincidence (past : List (List UInt8)) (new torn : List UInt8) : Prop :=
  slot_check torn ≠ none → torn ∈ past ∨ torn = new

theorem choose_inited (a b : SlotRead) : (choose a b).inited = true := by
  unfold choose; split
  · split_ifs <;> rfl
  · rfl
  · rfl
  · rfl

theorem choose_get (a b : SlotRead) (d : Dev) : config_store_get ⟨choose a b, d⟩ = (choose a b).cur := by
  simp [config_store_get, choose_inited]

/-- Two slots with the same record: either may be loaded. -/
private theorem choose_same {m : Mem} {slot : Nat} {cfg : IoCfg} {gen : Nat} (is : slot = CFG_SLOT_A ∨ slot = CFG_SLOT_B)
    (held : slotAt m slot = some (cfg, gen)) (copy : slotAt m (other slot) = some (cfg, gen)) :
    (choose (readSlot m CFG_SLOT_A) (readSlot m CFG_SLOT_B)).cur = cfg := by
  rcases is with rfl | rfl
  · have copyB : slotAt m CFG_SLOT_B = some (cfg, gen) := copy
    rw [readSlot_some held, readSlot_some copyB, choose, if_pos (Nat.le_refl _)]
  · have copyA : slotAt m CFG_SLOT_A = some (cfg, gen) := copy
    rw [readSlot_some held, readSlot_some copyA, choose, if_pos (Nat.le_refl _)]

/-- Loading from a coherent store whose target slot was left torn gives the
    configuration that was current or the new one. -/
theorem torn_load {s : Store} {past : List (List UInt8)} {count : Nat} (inv : Coherent s past count)
    (room : count < 2^32) {m : Mem} {new : IoCfg}
    (frame : ∀ a, (a < saveTarget s.ram ∨ saveTarget s.ram + CFG_SLOT_SIZE ≤ a) → m a = s.dev.mem a)
    (noCoincidence : NoCoincidence past (record new (saveGen s.ram)) (bytesAt m (saveTarget s.ram) CFG_REC_LEN)) :
    (choose (readSlot m CFG_SLOT_A) (readSlot m CFG_SLOT_B)).cur = config_store_get s ∨
      (choose (readSlot m CFG_SLOT_A) (readSlot m CFG_SLOT_B)).cur = new := by
  obtain ⟨bound, fresh | stored⟩ := inv
  · -- nothing saved before: slot B stays invalid, and slot A holds the new record or none
    have target : saveTarget s.ram = CFG_SLOT_A := by rw [saveTarget_eq, fresh.slot]; rfl
    rw [target] at frame noCoincidence
    have slotB : slotAt m CFG_SLOT_B = none := by
      rw [slotAt_frame (m := s.dev.mem) (.inr rfl) frame, fresh.slotB]
    cases at_ : slotAt m CFG_SLOT_A with
    | none =>
      left
      rw [readSlot_none at_, readSlot_none slotB, fresh.get]; rfl
    | some r =>
      right
      rcases noCoincidence (by rw [← slotAt, at_]; simp) with old | whole
      · rw [fresh.none_] at old; simp at old
      · rw [slotAt, whole, slot_check_record] at at_
        rw [readSlot, slotAt, whole, slot_check_record, readSlot_none slotB]; rfl
  · have get : config_store_get s = s.ram.cur := by simp [config_store_get, stored.inited]
    have held : slotAt m s.ram.cur_slot = some (s.ram.cur, s.ram.cur_gen) := by
      rw [← stored.held]
      exact slotAt_frame stored.slot frame
    rw [saveTarget_eq] at noCoincidence
    cases at_ : slotAt m (other s.ram.cur_slot) with
    | none =>
      left
      rw [choose_newest stored.slot held (by simp [at_]), get]
    | some r =>
      rcases noCoincidence (by rw [← slotAt, at_]; simp) with old | whole
      · -- a whole record of the past: older than the current one, or a copy of it
        left
        rcases stored.known _ old r.1 r.2 at_ with lower | ⟨sameGen, sameCfg⟩
        · rw [choose_newest stored.slot held (by rw [at_]; intro c g e; cases e; exact lower), get]
        · rw [choose_same stored.slot held (by rw [at_, ← sameGen, ← sameCfg]), get]
      · have newRecord : slotAt m (other s.ram.cur_slot) = some (new, saveGen s.ram) := by
          rw [slotAt, whole, slot_check_record, saveGen, Nat.mod_mod]
        by_cases last : s.ram.cur_gen + 1 = 2^32
        · -- the generation would wrap: the new record loses against the current one
          left
          have wrapped : saveGen s.ram = 0 := by rw [saveGen, last, Nat.mod_self]
          rw [choose_newest stored.slot held (by rw [newRecord]; intro c g e; cases e; omega), get]
        · right
          have gen : saveGen s.ram = s.ram.cur_gen + 1 := Nat.mod_eq_of_lt (by omega)
          rw [choose_newest (other_slot _) newRecord (by
            rw [other_other stored.slot, held]; intro c g e; cases e; omega)]

/-- Power loss at any point of a save, after any history of loads and saves with
    working flash: the next load gives the configuration that was current before
    the save, or the new one in full. The first `n` flash operations of the save
    complete and power goes during the next, when it has done the bytes `part`
    selects. -/
theorem save_power_loss_atomic (m : Mem) (slotA : slotAt m CFG_SLOT_A = none) (slotB : slotAt m CFG_SLOT_B = none)
    (calls : List Call) (noReset : Call.eraseAll ∉ calls) (fewer : saves calls < 2^32)
    (new : IoCfg) (n : Nat) (part : Nat → Bool)
    (noCoincidence : NoCoincidence (written (start m) calls) (record new (saveGen (history (start m) calls).ram))
      (bytesAt (perform (history (start m) calls) (.save new) (List.replicate n .ok ++ [.cut part])).2.dev.mem
        (saveTarget (history (start m) calls).ram) CFG_REC_LEN))
    (reads : List Fate) :
    let before := history (start m) calls
    let torn := (perform before (.save new) (List.replicate n .ok ++ [.cut part])).2
    (perform torn .init reads).1 = true →
      config_store_get (perform torn .init reads).2 = config_store_get before ∨
        config_store_get (perform torn .init reads).2 = new := by
  intro before torn loaded
  have inv : Coherent before (written (start m) calls) (saves calls) := by
    simpa using coherent_history (coherent_start slotA slotB) calls noReset (by omega)
  have frame : ∀ a, (a < saveTarget before.ram ∨ saveTarget before.ram + CFG_SLOT_SIZE ≤ a) →
      torn.dev.mem a = before.dev.mem a := fun a outside => perform_save_outside before new _ outside
  have load := torn_load inv fewer frame noCoincidence
  have ram := perform_init_done loaded
  have get : config_store_get (perform torn .init reads).2 =
      (choose (readSlot torn.dev.mem CFG_SLOT_A) (readSlot torn.dev.mem CFG_SLOT_B)).cur := by
    rw [← choose_get _ _ (perform torn .init reads).2.dev, ← ram]
  rw [get]
  exact load

/-- A flash chip as it is delivered. -/
def erasedChip : Mem := fun _ => 0xFF

/-- The defaults at another CAN bit rate. -/
def withBps (bps : UInt16) : IoCfg := { config_store_get_defaults with can_bps := bps }

theorem save_power_loss_in_header :
    let before := history (start erasedChip) [.init, .save (withBps 500)]
    let torn := (perform before (.save (withBps 125)) [.ok, .cut fun a => a < CFG_SLOT_B + 5]).2
    config_store_get (perform torn .init []).2 = config_store_get before ∨
      config_store_get (perform torn .init []).2 = withBps 125 :=
  save_power_loss_atomic erasedChip (by decide) (by decide) [.init, .save (withBps 500)] (by decide)
    (by decide) (withBps 125) 1 (fun a => a < CFG_SLOT_B + 5) (fun valid => absurd (by decide +kernel) valid) []
    (by decide +kernel)

/-! ### Faults: which saves are durable -/

/-- A call with the fates of its flash operations. -/
structure Step where
  call : Call
  fates : List Fate

def after (s : Store) (step : Step) : Store := (perform s step.call step.fates).2

/-- Slot B holds no record of a generation above the first. -/
def NoneAboveFirst (m : Mem) : Prop := ∀ cfg gen, slotAt m CFG_SLOT_B = some (cfg, gen) → gen ≤ 1

/-- The steps that do not lead to "no slot in use" over a slot B that would win
    against the next record: a load that cannot read a slot, or a reset that
    cannot erase slot B, must find or leave no record above the first generation
    there. Generations stay below the wrap. -/
def Benign (s : Store) (step : Step) : Prop :=
  match step.call with
  | .init => (∀ fate ∈ step.fates.take 2, fate = .ok) ∨ NoneAboveFirst s.dev.mem
  | .save _ => s.ram.cur_gen + 1 < 2^32
  | .eraseAll => ∀ left, step.fates[1]? = some (.fail left) → NoneAboveFirst left

/-- After the run, a save of `cfg` that returns 0 is what every later load that
    can read both slots gives, whatever loads come in between. -/
def Durable (m : Mem) (run : List Step) (cfg : IoCfg) (fates : List Fate) : Prop :=
  let saved := perform (run.foldl after (start m)) (.save cfg) fates
  saved.1 = true → ∀ (between : List (List Fate)) (reads : List Fate),
    let s := between.foldl (fun s fates => (perform s .init fates).2) saved.2
    (perform s .init reads).1 = true → config_store_get (perform s .init reads).2 = cfg

/-- The current slot holds a record of the current generation; with no slot in
    use, slot B holds nothing that wins against a record of generation one. -/
def Sound (s : Store) : Prop :=
  s.ram.inited = true →
    (s.ram.cur_slot = CFG_SLOT_A ∨ s.ram.cur_slot = CFG_SLOT_B) ∧
      (∃ cfg, slotAt s.dev.mem s.ram.cur_slot = some (cfg, s.ram.cur_gen)) ∨
    s.ram.cur_slot = 0 ∧ s.ram.cur_gen = 0 ∧ NoneAboveFirst s.dev.mem

theorem sound_zero (d : Dev) : Sound ⟨Ram.zero, d⟩ := by
  intro inited
  simp [Ram.zero] at inited

/-- A load that can read both slots, from any flash. -/
theorem sound_choose (m : Mem) (d : Dev) (mem : d.mem = m) :
    Sound ⟨choose (readSlot m CFG_SLOT_A) (readSlot m CFG_SLOT_B), d⟩ := by
  intro _
  rw [mem]
  cases atA : slotAt m CFG_SLOT_A with
  | none =>
    rw [readSlot_none atA]
    cases atB : slotAt m CFG_SLOT_B with
    | none =>
      rw [readSlot_none atB]
      exact .inr ⟨rfl, rfl, by simp [NoneAboveFirst, atB]⟩
    | some b =>
      rw [readSlot_some atB]
      exact .inl ⟨.inr rfl, b.1, atB⟩
  | some a =>
    rw [readSlot_some atA]
    cases atB : slotAt m CFG_SLOT_B with
    | none =>
      rw [readSlot_none atB]
      exact .inl ⟨.inl rfl, a.1, atA⟩
    | some b =>
      rw [readSlot_some atB, choose]
      split_ifs
      · exact .inl ⟨.inl rfl, a.1, atA⟩
      · exact .inl ⟨.inr rfl, b.1, atB⟩

/-- An operation whose fate is to complete does, and leaves the later fates. -/
private theorem operate_fated {d : Dev} {addr len : Nat} {effect : Mem → Mem} (on : d.power = true)
    (fated : ∀ fate ∈ d.fates.take 1, fate = .ok) :
    d.operate addr len effect = (true, { d with mem := effect d.mem, fates := d.fates.tail }) := by
  unfold Dev.operate
  cases ahead : d.fates with
  | nil => simp [on]
  | cons fate rest =>
    have ok : fate = .ok := fated fate (by simp [ahead])
    simp [on, ok]

private theorem slot_read_fated {d : Dev} {addr : Nat} (on : d.power = true)
    (fated : ∀ fate ∈ d.fates.take 1, fate = .ok) (inside : addr + CFG_REC_LEN ≤ W25Q_CHIP_SIZE) :
    slot_read addr d = (readSlot d.mem addr, { d with fates := d.fates.tail }) := by
  have read : w25_read addr CFG_REC_LEN d = (some (bytesAt d.mem addr CFG_REC_LEN), { d with fates := d.fates.tail }) := by
    unfold w25_read
    rw [if_neg (by decide), if_neg (by unfold CFG_REC_LEN W25Q_CHIP_SIZE at *; omega), Dev.read, operate_fated on fated]
    rfl
  unfold slot_read readSlot slotAt
  rw [read]
  simp only
  cases slot_check (bytesAt d.mem addr CFG_REC_LEN) <;> rfl

/-- A load whose two reads are fated to succeed returns 0. -/
theorem perform_init_fated {s : Store} {fates : List Fate} (fated : ∀ fate ∈ fates.take 2, fate = .ok) :
    (perform s .init fates).1 = true := by
  have first : ∀ fate ∈ fates.take 1, fate = .ok := fun fate member =>
    fated fate (List.take_subset_take_left fates (by omega) member)
  have second : ∀ fate ∈ fates.tail.take 1, fate = .ok := by
    intro fate member
    apply fated fate
    cases fates with
    | nil => simp at member
    | cons f rest => exact List.mem_cons_of_mem _ member
  have never (addr : Nat) : readSlot s.dev.mem addr ≠ .ioError := by
    unfold readSlot; split <;> simp
  have readA := @slot_read_fated { mem := s.dev.mem, fates := fates } CFG_SLOT_A rfl first (by decide)
  have readB := @slot_read_fated { mem := s.dev.mem, fates := fates.tail } CFG_SLOT_B rfl second (by decide)
  simp only at readA readB
  simp only [perform, settle, Call.body, config_store_init, Store.facing, readA, readB, never, or_self, if_false]
  rfl

theorem sound_init {s : Store} {fates : List Fate} (benign : Benign s ⟨.init, fates⟩) :
    Sound (perform s .init fates).2 := by
  cases returned : (perform s .init fates).1 with
  | true =>
    have ram := perform_init_done returned
    have mem := perform_init_mem s fates
    have loaded := sound_choose s.dev.mem (perform s .init fates).2.dev mem
    rw [← ram] at loaded
    exact loaded
  | false =>
    rcases settle_failed returned with ⟨failed, ram⟩ | lost
    · rcases benign with fated | none_
      · rw [perform_init_fated fated] at returned; simp at returned
      · intro _
        have reset := config_store_init_failed failed
        have mem := perform_init_mem s fates
        rw [perform] at mem ⊢
        rw [ram, mem]
        simp only [Call.body, reset]
        exact .inr ⟨trivial, trivial, none_⟩
    · have zero := sound_zero (perform s .init fates).2.dev
      rw [← lost] at zero
      exact zero

theorem sound_save {s : Store} (sound : Sound s) (cfg : IoCfg) (fates : List Fate) :
    Sound (perform s (.save cfg) fates).2 := by
  cases returned : (perform s (.save cfg) fates).1 with
  | true =>
    obtain ⟨_, ram, held⟩ := perform_save_done returned
    intro _
    rw [ram]
    exact .inl ⟨saveTarget_cases s.ram, cfg, held⟩
  | false =>
    rcases perform_save_failed returned with same | lost
    · intro inited
      rw [same] at inited ⊢
      have frame : ∀ a, (a < other s.ram.cur_slot ∨ other s.ram.cur_slot + CFG_SLOT_SIZE ≤ a) →
          (perform s (.save cfg) fates).2.dev.mem a = s.dev.mem a :=
        fun a outside => perform_save_outside s cfg fates outside
      rcases sound inited with ⟨slot, held⟩ | ⟨slot, gen, none_⟩
      · rw [slotAt_frame slot frame]
        exact .inl ⟨slot, held⟩
      · refine .inr ⟨slot, gen, ?_⟩
        rw [slot, show other 0 = other CFG_SLOT_B from rfl] at frame
        unfold NoneAboveFirst
        rw [slotAt_frame (.inr rfl) frame]
        exact none_
    · have zero := sound_zero (perform s (.save cfg) fates).2.dev
      rw [← lost] at zero
      exact zero

/-- A slot is erased by a single command. -/
theorem w25_erase_slot {slot : Nat} (is : slot = CFG_SLOT_A ∨ slot = CFG_SLOT_B) (d : Dev) :
    w25_erase slot CFG_SLOT_SIZE d = d.erase slot CFG_SLOT_SIZE := by
  have chunk : erase_chunk slot CFG_SLOT_SIZE = CFG_SLOT_SIZE := by rcases is with rfl | rfl <;> rfl
  have accepted : w25_erase slot CFG_SLOT_SIZE d = erase_loop slot CFG_SLOT_SIZE d := by
    unfold w25_erase
    rcases is with rfl | rfl <;> rw [if_neg (by decide), if_neg (by decide)]
  rw [accepted, erase_loop, if_neg (by decide), chunk]
  split
  · rename_i d' step; rw [Nat.sub_self, erase_loop, if_pos rfl, step]
  · rename_i d' step; exact step.symm

theorem slotAt_blank {m : Mem} {addr : Nat} (blank : Blank m addr CFG_REC_LEN) : slotAt m addr = none := by
  have first : (bytesAt m addr CFG_REC_LEN).take 4 ≠ CFG_MAGIC := by
    rw [bytesAt_take m addr (by decide)]
    intro same
    have byte := congrArg (fun bytes => bytes[0]?) same
    simp only [bytesAt_getElem? m addr (show 0 < 4 by decide)] at byte
    rw [Nat.add_zero, blank addr (Nat.le_refl _) (by simp [CFG_REC_LEN])] at byte
    simp [CFG_MAGIC] at byte
  rw [slotAt, slot_check, if_pos first]

/-- Erasing slot B leaves no record there, unless the erase fails and leaves one. -/
private theorem erase_noneAboveFirst {d : Dev}
    (benign : ∀ left, d.fates.head? = some (.fail left) → NoneAboveFirst left)
    (on : (d.erase CFG_SLOT_B CFG_SLOT_SIZE).2.power = true) :
    NoneAboveFirst (d.erase CFG_SLOT_B CFG_SLOT_SIZE).2.mem := by
  have gone (m : Mem) : NoneAboveFirst (erased CFG_SLOT_B CFG_SLOT_SIZE m) := by
    unfold NoneAboveFirst
    rw [slotAt_blank (blank_part (erased_blank m CFG_SLOT_B CFG_SLOT_SIZE) (Nat.le_refl _) (by decide))]
    simp
  unfold Dev.erase Dev.operate at on ⊢
  split at on
  · rename_i off; rw [on] at off; simp at off
  · rename_i running
    rw [if_neg running]
    split at on
    · exact gone _
    · exact gone _
    · rename_i left rest ahead
      have kept : slotAt (blend (inRange CFG_SLOT_B CFG_SLOT_SIZE) left d.mem) CFG_SLOT_B = slotAt left CFG_SLOT_B := by
        refine congrArg slot_check (bytesAt_congr fun a low high => ?_)
        have fits : CFG_REC_LEN ≤ CFG_SLOT_SIZE := by decide
        have inside : inRange CFG_SLOT_B CFG_SLOT_SIZE a = true := decide_eq_true ⟨low, by omega⟩
        rw [blend, if_pos inside]
      unfold NoneAboveFirst
      rw [kept]
      exact benign left (by simp [ahead])
    · simp at on

theorem sound_erase_all {s : Store} {fates : List Fate} (benign : Benign s ⟨.eraseAll, fates⟩) :
    Sound (perform s .eraseAll fates).2 := by
  unfold perform settle
  split_ifs with on
  · intro inited
    have ready : (Store.facing fates s).ram.inited = true := inited
    have run : (Call.body .eraseAll (Store.facing fates s)).2 =
        ⟨⟨config_store_get_defaults, 0, 0, true⟩,
          (Dev.erase CFG_SLOT_B CFG_SLOT_SIZE (Dev.erase CFG_SLOT_A CFG_SLOT_SIZE (Store.facing fates s).dev).2).2⟩ := by
      simp [Call.body, config_store_erase_all, ready, w25_erase_slot]
    rw [run] at on ⊢
    refine .inr ⟨rfl, rfl, erase_noneAboveFirst (fun left ahead => ?_) on⟩
    -- slot A's erase has used up the first fate
    apply benign left
    rw [Dev.erase, operate_fates rfl] at ahead
    rw [← ahead, List.head?_tail]
    rfl
  · exact sound_zero _

theorem sound_after (s : Store) (step : Step) (sound : Sound s) (benign : Benign s step) : Sound (after s step) := by
  obtain ⟨call, fates⟩ := step
  cases call with
  | init => exact sound_init benign
  | save cfg => exact sound_save sound cfg fates
  | eraseAll => exact sound_erase_all benign

/-- Loads in between leave the flash alone. -/
private theorem loads_mem (s : Store) (between : List (List Fate)) :
    (between.foldl (fun s fates => (perform s .init fates).2) s).dev.mem = s.dev.mem := by
  induction between generalizing s with
  | nil => rfl
  | cons fates rest ih => rw [List.foldl_cons, ih, perform_init_mem]

/-- A record saved from a sound store is the one every later load takes. -/
theorem sound_save_loaded {s : Store} (sound : Sound s) {cfg : IoCfg} {fates : List Fate}
    (room : s.ram.cur_gen + 1 < 2^32) (saved : (perform s (.save cfg) fates).1 = true) :
    let m := (perform s (.save cfg) fates).2.dev.mem
    (choose (readSlot m CFG_SLOT_A) (readSlot m CFG_SLOT_B)).cur = cfg := by
  intro m
  obtain ⟨inited, _, held⟩ := perform_save_done saved
  have gen : saveGen s.ram = s.ram.cur_gen + 1 := Nat.mod_eq_of_lt room
  have frame : ∀ a, (a < other s.ram.cur_slot ∨ other s.ram.cur_slot + CFG_SLOT_SIZE ≤ a) → m a = s.dev.mem a :=
    fun a outside => perform_save_outside s cfg fates outside
  rcases sound inited with ⟨slot, old, at_⟩ | ⟨slot, zero, none_⟩
  · have kept : slotAt m s.ram.cur_slot = some (old, s.ram.cur_gen) := by rw [slotAt_frame slot frame, at_]
    rw [choose_newest (other_slot _) held]
    intro c g read
    rw [other_other slot, kept] at read
    cases read; omega
  · -- slot A gets generation one; a record in slot B can at most tie with it
    rw [saveTarget_eq, slot, gen, zero] at held
    rw [slot, show other 0 = other CFG_SLOT_B from rfl] at frame
    have heldA : slotAt m CFG_SLOT_A = some (cfg, 1) := held
    rw [readSlot_some heldA]
    cases atB : slotAt m CFG_SLOT_B with
    | none => rw [readSlot_none atB]; rfl
    | some b =>
      rw [slotAt_frame (.inr rfl) frame] at atB
      have low : b.2 ≤ 1 := none_ b.1 b.2 atB
      rw [← slotAt_frame (.inr rfl) frame] at atB
      rw [readSlot_some atB, choose, if_pos (by omega)]

/-- In every run whose steps are benign, a save that returns 0 is durable. -/
theorem save_durable (m : Mem) (run : List Step) (cfg : IoCfg) (fates : List Fate)
    (benign : Meets after Benign (start m) (run ++ [⟨.save cfg, fates⟩])) : Durable m run cfg fates := by
  intro returned between reads s loaded
  obtain ⟨before, room, _⟩ := (meets_append after Benign (start m) run _).mp benign
  have sound : Sound (run.foldl after (start m)) := invariant sound_after (sound_zero _) before
  have load := sound_save_loaded sound room returned
  have ram := perform_init_done loaded
  have mem : s.dev.mem = (perform (run.foldl after (start m)) (.save cfg) fates).2.dev.mem := loads_mem _ between
  have get : config_store_get (perform s .init reads).2 =
      (choose (readSlot s.dev.mem CFG_SLOT_A) (readSlot s.dev.mem CFG_SLOT_B)).cur := by
    rw [← choose_get _ _ (perform s .init reads).2.dev, ← ram]
  rw [get, mem]
  exact load

theorem save_durable_after_failed_program :
    Durable erasedChip [⟨.init, []⟩, ⟨.save (withBps 500), []⟩, ⟨.save (withBps 125), [.ok, .fail erasedChip]⟩]
      (withBps 1000) [] :=
  save_durable _ _ _ _ ⟨.inl (by simp), by simp only [Benign]; decide +kernel, by simp only [Benign]; decide +kernel,
    by simp only [Benign]; decide +kernel, trivial⟩

/-- A load that cannot read slot A sends the next save back to slot A and
    generation one, while slot B keeps generation two: the save returns 0 and the
    next load gives the superseded configuration. -/
theorem save_not_durable :
    ¬ Durable erasedChip
      [⟨.init, []⟩, ⟨.save (withBps 500), []⟩, ⟨.save (withBps 125), []⟩, ⟨.init, [.fail erasedChip]⟩]
      (withBps 1000) [] := by
  intro durable
  have kept := durable (by decide +kernel) [] [] (by decide +kernel)
  have stale : config_store_get (perform (perform (([⟨.init, []⟩, ⟨.save (withBps 500), []⟩, ⟨.save (withBps 125), []⟩,
      ⟨.init, [.fail erasedChip]⟩] : List Step).foldl after (start erasedChip)) (.save (withBps 1000)) []).2 .init []).2 =
      withBps 125 := by decide +kernel
  exact absurd (stale.symm.trans kept) (by decide)

end IoEdgeHub.ConfigHistory
