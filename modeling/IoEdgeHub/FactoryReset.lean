import IoEdgeHub.ConfigHistory

/-!
What a factory reset leaves behind when it is cut short (`config_store_erase_all`). The slots are
erased one after the other and a failure of either erase is not looked at, so the record that
survives may be the older one. The reset is all or nothing exactly when there is no such record.
-/
namespace IoEdgeHub.FactoryReset
open IoEdgeHub.Nor IoEdgeHub.W25qxx IoEdgeHub.ConfigStore IoEdgeHub.ConfigHistory

/-- What the next `config_store_init` loads, with successful reads, when a reset met the given fates. -/
def reloaded (s : Store) (fates : List Fate) : IoCfg :=
  config_store_get (perform (perform s .eraseAll fates).2 .init []).2

/-- A slot that passes its checks does so as it was: none passes them by coincidence. -/
def Unforged (m m' : Mem) : Prop :=
  ∀ slot, slot = CFG_SLOT_A ∨ slot = CFG_SLOT_B → slotAt m' slot ≠ none →
    bytesAt m' slot CFG_REC_LEN = bytesAt m slot CFG_REC_LEN

/-- However the reset ends, the next load gives the configuration that was current, or the defaults. -/
def AllOrNothing (s : Store) : Prop :=
  ∀ fates, Unforged s.dev.mem (perform s .eraseAll fates).2.dev.mem →
    reloaded s fates = config_store_get s ∨ reloaded s fates = config_store_get_defaults

/-- No slot holds a valid record of anything but the current configuration or the defaults; and before
    `config_store_init`, when a reset does nothing to the flash, the slots hold the defaults. -/
def OnlyCurrent (s : Store) : Prop :=
  (s.ram.inited = true → ∀ slot, slot = CFG_SLOT_A ∨ slot = CFG_SLOT_B → ∀ cfg gen,
    slotAt s.dev.mem slot = some (cfg, gen) → cfg = s.ram.cur ∨ cfg = config_store_get_defaults) ∧
  (s.ram.inited = false →
    (choose (readSlot s.dev.mem CFG_SLOT_A) (readSlot s.dev.mem CFG_SLOT_B)).cur = config_store_get_defaults)

section
variable {s : Store} {fates : List Fate}

theorem reloaded_eq : reloaded s fates =
    (choose (readSlot (perform s .eraseAll fates).2.dev.mem CFG_SLOT_A)
      (readSlot (perform s .eraseAll fates).2.dev.mem CFG_SLOT_B)).cur := by
  rw [reloaded, perform_init_working, choose_get]

theorem erase_all_mem (inited : s.ram.inited = true) :
    (perform s .eraseAll fates).2.dev.mem =
      (((⟨s.dev.mem, fates, true⟩ : Dev).erase CFG_SLOT_A CFG_SLOT_SIZE).2.erase CFG_SLOT_B CFG_SLOT_SIZE).2.mem := by
  rw [perform, settle_mem]
  have ready : (Store.facing fates s).ram.inited = true := inited
  simp only [Call.body, config_store_erase_all, ready, if_true, w25_erase_slot (.inl rfl), w25_erase_slot (.inr rfl)]
  rfl

theorem erase_all_idle (idle : s.ram.inited = false) : (perform s .eraseAll fates).2.dev.mem = s.dev.mem := by
  rw [perform, settle_mem]
  have ready : (Store.facing fates s).ram.inited = false := idle
  simp only [Call.body, config_store_erase_all, ready]
  rfl

/-- What is loaded is a record of one of the slots, or the defaults. -/
theorem choose_cases (m : Mem) :
    (choose (readSlot m CFG_SLOT_A) (readSlot m CFG_SLOT_B)).cur = config_store_get_defaults ∨
      ∃ slot, (slot = CFG_SLOT_A ∨ slot = CFG_SLOT_B) ∧ ∃ gen,
        slotAt m slot = some ((choose (readSlot m CFG_SLOT_A) (readSlot m CFG_SLOT_B)).cur, gen) := by
  cases atA : slotAt m CFG_SLOT_A with
  | none =>
    rw [readSlot_none atA]
    cases atB : slotAt m CFG_SLOT_B with
    | none =>
      rw [readSlot_none atB]
      exact .inl rfl
    | some b =>
      rw [readSlot_some atB]
      exact .inr ⟨CFG_SLOT_B, .inr rfl, b.2, atB⟩
  | some a =>
    rw [readSlot_some atA]
    cases atB : slotAt m CFG_SLOT_B with
    | none =>
      rw [readSlot_none atB]
      exact .inr ⟨CFG_SLOT_A, .inl rfl, a.2, atA⟩
    | some b =>
      rw [readSlot_some atB, choose]
      split_ifs
      · exact .inr ⟨CFG_SLOT_A, .inl rfl, a.2, atA⟩
      · exact .inr ⟨CFG_SLOT_B, .inr rfl, b.2, atB⟩

theorem slotAt_unforged {m m' : Mem} (unforged : Unforged m m') {slot : Nat}
    (is : slot = CFG_SLOT_A ∨ slot = CFG_SLOT_B) {record : IoCfg × Nat} (held : slotAt m' slot = some record) :
    slotAt m slot = some record := by
  have same := unforged slot is (by simp [held])
  rw [slotAt, same] at held
  exact held

theorem all_or_nothing_of_only (only : OnlyCurrent s) : AllOrNothing s := by
  intro fates unforged
  rw [reloaded_eq]
  cases inited : s.ram.inited with
  | false =>
    rw [erase_all_idle inited]
    exact .inr (only.2 inited)
  | true =>
    rcases choose_cases (perform s .eraseAll fates).2.dev.mem with defaults | ⟨slot, is, gen, held⟩
    · exact .inr defaults
    · have current : config_store_get s = s.ram.cur := by simp [config_store_get, inited]
      rw [current]
      exact only.1 inited slot is _ gen (slotAt_unforged unforged is held)

end

section
variable {s : Store}

/-- Both erases, when the first fails without an effect. -/
theorem keeps_first (inited : s.ram.inited = true) :
    (perform s .eraseAll [.fail s.dev.mem]).2.dev.mem = erased CFG_SLOT_B CFG_SLOT_SIZE s.dev.mem := by
  have same : blend (inRange CFG_SLOT_A CFG_SLOT_SIZE) s.dev.mem s.dev.mem = s.dev.mem := by
    funext a
    simp [blend]
  rw [erase_all_mem inited]
  simp [Dev.erase, Dev.operate, same]

/-- Both erases, when power is lost before the second. -/
theorem keeps_second (inited : s.ram.inited = true) :
    (perform s .eraseAll [.ok, .cut fun _ => false]).2.dev.mem = erased CFG_SLOT_A CFG_SLOT_SIZE s.dev.mem := by
  have same (new m : Mem) : blend (fun _ => false) new m = m := rfl
  rw [erase_all_mem inited]
  simp [Dev.erase, Dev.operate, same]

/-- With the other slot erased, a slot that held a record is what is loaded. -/
theorem reload_survivor {fates : List Fate} {slot : Nat} (is : slot = CFG_SLOT_A ∨ slot = CFG_SLOT_B) {cfg : IoCfg}
    {gen : Nat} (held : slotAt s.dev.mem slot = some (cfg, gen))
    (left : (perform s .eraseAll fates).2.dev.mem = erased (other slot) CFG_SLOT_SIZE s.dev.mem) :
    Unforged s.dev.mem (perform s .eraseAll fates).2.dev.mem ∧ reloaded s fates = cfg := by
  have gone : slotAt (erased (other slot) CFG_SLOT_SIZE s.dev.mem) (other slot) = none :=
    slotAt_blank (blank_part (erased_blank _ _ _) (Nat.le_refl _) (by
      have fits : CFG_REC_LEN ≤ CFG_SLOT_SIZE := by decide
      omega))
  have apart : slot + CFG_REC_LEN ≤ other slot ∨ other slot + CFG_SLOT_SIZE ≤ slot := by
    rcases is with rfl | rfl <;> decide
  have kept : bytesAt (erased (other slot) CFG_SLOT_SIZE s.dev.mem) slot CFG_REC_LEN =
      bytesAt s.dev.mem slot CFG_REC_LEN := bytesAt_erased_outside _ apart
  have still : slotAt (erased (other slot) CFG_SLOT_SIZE s.dev.mem) slot = some (cfg, gen) := by
    rw [slotAt, kept]
    exact held
  constructor
  · rw [left]
    intro slot' is' valid
    by_cases same : slot' = slot
    · rw [same]
      exact kept
    · have second : slot' = other slot := by
        rcases is with rfl | rfl <;> rcases is' with rfl | rfl <;> first | exact absurd rfl same | rfl
      rw [second] at valid
      exact absurd gone valid
  · rw [reloaded_eq, left]
    rcases is with rfl | rfl
    · rw [readSlot_some still, @readSlot_none _ CFG_SLOT_B gone]
      rfl
    · rw [readSlot_some still, @readSlot_none _ CFG_SLOT_A gone]
      rfl

theorem only_of_all_or_nothing (all : AllOrNothing s) : OnlyCurrent s := by
  constructor
  · intro inited slot is cfg gen held
    have current : config_store_get s = s.ram.cur := by simp [config_store_get, inited]
    obtain ⟨fates, left⟩ : ∃ fates,
        (perform s .eraseAll fates).2.dev.mem = erased (other slot) CFG_SLOT_SIZE s.dev.mem := by
      rcases is with rfl | rfl
      · exact ⟨_, keeps_first inited⟩
      · exact ⟨_, keeps_second inited⟩
    obtain ⟨unforged, loaded⟩ := reload_survivor is held left
    rw [← current, ← loaded]
    exact all fates unforged
  · intro idle
    have defaults : config_store_get s = config_store_get_defaults := by simp [config_store_get, idle]
    have same := @erase_all_idle s [] idle
    have loaded := all [] (by rw [same]; exact fun _ _ _ => rfl)
    rw [reloaded_eq, same, defaults, or_self] at loaded
    exact loaded

end

/-- A factory reset is all or nothing exactly when no slot holds another configuration than the current
    one or the defaults. -/
theorem reset_all_or_nothing_iff (s : Store) : AllOrNothing s ↔ OnlyCurrent s :=
  ⟨only_of_all_or_nothing, all_or_nothing_of_only⟩

/-- The store after three saves: the current configuration is in slot A, the one before in slot B. -/
def thrice : Store :=
  ([⟨.init, []⟩, ⟨.save (withBps 500), []⟩, ⟨.save (withBps 125), []⟩, ⟨.save (withBps 1000), []⟩] :
    List Step).foldl after (start erasedChip)

/-- When power is lost between the two erases, the superseded configuration is loaded again. -/
theorem reset_loads_superseded :
    config_store_get thrice = withBps 1000 ∧ reloaded thrice [.ok, .cut fun _ => false] = withBps 125 ∧
      ¬ AllOrNothing thrice := by
  have held : slotAt thrice.dev.mem CFG_SLOT_B = some (withBps 125, 2) := by decide +kernel
  have current : config_store_get thrice = withBps 1000 := by decide +kernel
  obtain ⟨unforged, loaded⟩ := reload_survivor (.inr rfl) held (keeps_second (by decide +kernel))
  refine ⟨current, loaded, fun all => ?_⟩
  have outcome := all _ unforged
  rw [loaded, current] at outcome
  exact absurd outcome (by decide)

end IoEdgeHub.FactoryReset
