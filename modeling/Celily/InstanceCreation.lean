import Celily.LxcCommands

/-!
# Creating an instance

The command line of `lxc init` is read back as the configuration of the instance, and
nothing else: no profile is applied, and the daemon is out of reach. Limits of containers
are left out for virtual machines.
-/

namespace InstanceCreation

open RustText InstanceLifecycle LxcArguments DeviceArguments EnvironmentMaps FlagWords LxcCommands

section Create
variable (backend : LxcBackend) (name : Text) (config : InstanceConfig)

/-- The flags of `create` before the settings. -/
def initFlags : List Piece :=
  [.switch (flagName "no-profiles"), .option (flagName "storage") (utf8 backend.pool)] ++
    (config.diskSize.map fun size =>
      .option (flagName "device") (utf8 ("root,size=".toList ++ size))).toList ++
    (if config.ephemeral then [.switch (flagName "ephemeral")] else []) ++
    (if config.vm then [.switch (flagName "vm")] else [])

/-- What stands behind the image and the name. -/
def initOptions : List Piece :=
  initFlags backend config ++
    ((present (settings config)).map fun setting => utf8 (word setting)).map
      (.option (flagName "config"))

theorem spell_settings (entries : List (Text × Text)) :
    (entries.flatMap fun setting => ["--config".toList, word setting]).map utf8 =
      spell ((entries.map fun setting => utf8 (word setting)).map
        (.option (flagName "config"))) := by
  induction entries with
  | nil => rfl
  | cons entry entries ih =>
    rw [List.flatMap_cons, List.map_append, ih]
    rfl

theorem create_spelled :
    ∃ args, create backend name config = lxcProjectCommand backend args ∧
      args.map utf8 = Verb.init.words ++
        utf8 config.image :: utf8 name :: spell (initOptions backend config) := by
  refine ⟨_, rfl, ?_⟩
  rw [List.map_append, spell_settings, initOptions, spell_append]
  refine (congrArg (· ++ _) ?_ : _ = (Verb.init.words ++
    utf8 config.image :: utf8 name :: spell (initFlags backend config)) ++ _)
  obtain ⟨image, ephemeral, vm, secureBoot, cpu, memory, diskSize, processes, diskPriority,
    memoryEnforce, rawIdmap, nesting⟩ := config
  cases diskSize <;> cases ephemeral <;> cases vm <;> rfl

theorem sound_switch {verb : Verb} {flag : String}
    (hflag : IsName (flagName flag) ∧ verb.declared (flagName flag) = some .switch) :
    Piece.Sound verb.declared (.switch (flagName flag)) := hflag

theorem sound_option {verb : Verb} {flag : String}
    (hflag : IsName (flagName flag) ∧ verb.declared (flagName flag) = some .option)
    (value : Bytes) : Piece.Sound verb.declared (.option (flagName flag) value) := hflag

theorem initOptions_sound :
    ∀ piece ∈ initOptions backend config, piece.Sound Verb.init.declared := by
  rw [initOptions, initFlags]
  simp only [List.forall_mem_append]
  refine ⟨⟨⟨⟨?_, ?_⟩, ?_⟩, ?_⟩, ?_⟩
  · intro piece hpiece
    rcases List.mem_pair.mp hpiece with rfl | rfl
    · exact sound_switch (by decide)
    · exact sound_option (by decide) _
  · intro piece hpiece
    obtain ⟨size, _, rfl⟩ := Option.map_eq_some_iff.mp (Option.mem_toList.mp hpiece)
    exact sound_option (by decide) _
  · intro piece hpiece
    split at hpiece
    · obtain rfl := List.mem_singleton.mp hpiece
      exact sound_switch (by decide)
    · cases hpiece
  · intro piece hpiece
    split at hpiece
    · obtain rfl := List.mem_singleton.mp hpiece
      exact sound_switch (by decide)
    · cases hpiece
  · intro piece hpiece
    obtain ⟨value, _, rfl⟩ := List.mem_map.mp hpiece
    exact sound_option (by decide) value

/-- What is read off the flags before the settings. -/
structure FlagsRead : Prop where
  names : operands (initFlags backend config) = []
  storage : values (flagName "storage") (initFlags backend config) = [utf8 backend.pool]
  device : values (flagName "device") (initFlags backend config) =
    (config.diskSize.map ("root,size=".toList ++ ·)).toList.map utf8
  noSettings : values (flagName "config") (initFlags backend config) = []
  noProfiles : isGiven (flagName "no-profiles") (initFlags backend config) = true
  ephemeral : isGiven (flagName "ephemeral") (initFlags backend config) = config.ephemeral
  vm : isGiven (flagName "vm") (initFlags backend config) = config.vm

theorem flagsRead : FlagsRead backend config := by
  obtain ⟨image, ephemeral, vm, secureBoot, cpu, memory, diskSize, processes, diskPriority,
    memoryEnforce, rawIdmap, nesting⟩ := config
  cases diskSize <;> cases ephemeral <;> cases vm <;>
    exact ⟨rfl, rfl, rfl, rfl, rfl, rfl, rfl⟩

theorem operands_initOptions : operands (initOptions backend config) = [] := by
  rw [initOptions, operands_append, (flagsRead backend config).names, operands_map_option]
  rfl

/-- The other options have no values but those of the flags. -/
theorem values_initOptions {flag : String} (hne : flagName "config" ≠ flagName flag) :
    values (flagName flag) (initOptions backend config) =
      values (flagName flag) (initFlags backend config) := by
  rw [initOptions, values_append, values_map_option_ne hne, List.append_nil]

theorem settings_initOptions :
    values (flagName "config") (initOptions backend config) =
      ((present (settings config)).map word).map utf8 := by
  rw [initOptions, values_append, (flagsRead backend config).noSettings, values_map_option,
    List.nil_append, List.map_map]
  rfl

theorem isGiven_initOptions (flag : Bytes) :
    isGiven flag (initOptions backend config) = isGiven flag (initFlags backend config) := by
  rw [initOptions, isGiven_append, isGiven_map_option, Bool.or_false]

theorem settings_keys : (settings config).map Prod.fst = settingKeys.map String.toList := rfl

theorem settings_once : ((settings config).map Prod.fst).Nodup := by
  rw [settings_keys]
  decide

theorem readFields_settings :
    readFields settingKeys ((present (settings config)).map word) =
      some (present (settings config)) :=
  readFields_present (settings_keys config) (settings_once config) (by decide)

theorem setting_present (key : String) :
    (present (settings config)).lookup key.toList = ((settings config).lookup key.toList).join :=
  lookup_present (settings_once config) key.toList

theorem ifGiven_map {α : Type} {read : Text → Option α} {write : α → Text}
    (hread : ∀ a, read (write a) = some a) (value : Option α) :
    ifGiven read (value.map write) = some value := by
  cases value with
  | none => rfl
  | some a =>
    change (read (write a)).map some = _
    rw [hread]
    rfl

/-- The numbers among the settings, each as far as it reaches the instance. -/
theorem numbers_read :
    ifGiven readId ((settings config).lookup "limits.cpu".toList).join =
        some (effective config).cpu ∧
      ifGiven readSigned ((settings config).lookup "limits.processes".toList).join =
        some (effective config).processes ∧
      ifGiven readId ((settings config).lookup "limits.disk.priority".toList).join =
        some (effective config).diskPriority := by
  obtain ⟨image, ephemeral, vm, secureBoot, cpu, memory, diskSize, processes, diskPriority,
    memoryEnforce, rawIdmap, nesting⟩ := config
  cases vm with
  | false =>
    exact ⟨ifGiven_map readId_decimal cpu, ifGiven_map readSigned_signed processes,
      ifGiven_map readId_decimal diskPriority⟩
  | true => exact ⟨ifGiven_map readId_decimal cpu, rfl, rfl⟩

/-- The switches among the settings: nothing turns the daemon's door to the guest open. -/
theorem switches_read :
    readTurned "uefi-nosecureboot" ((settings config).lookup "boot.mode".toList).join =
        some (!(effective config).secureBoot) ∧
      readTurned "true" ((settings config).lookup "security.nesting".toList).join =
        some (effective config).securityNesting ∧
      readTurned "false" ((settings config).lookup "security.devlxd".toList).join = some true := by
  obtain ⟨image, ephemeral, vm, secureBoot, cpu, memory, diskSize, processes, diskPriority,
    memoryEnforce, rawIdmap, nesting⟩ := config
  cases vm <;> cases secureBoot <;> cases nesting <;> exact ⟨rfl, rfl, rfl⟩

/-- The texts among the settings. -/
theorem texts_read :
    ((settings config).lookup "limits.memory".toList).join = (effective config).memory ∧
      ((settings config).lookup "limits.memory.enforce".toList).join =
        (effective config).memoryEnforce ∧
      ((settings config).lookup "raw.idmap".toList).join = (effective config).rawIdmap := by
  obtain ⟨image, ephemeral, vm, secureBoot, cpu, memory, diskSize, processes, diskPriority,
    memoryEnforce, rawIdmap, nesting⟩ := config
  cases vm <;> exact ⟨rfl, rfl, rfl⟩

theorem readInit_pieces (hname : IsPlain name) :
    readInit (.operand (utf8 config.image) :: .operand (utf8 name) ::
        initOptions backend config) =
      some (.createInstance name (effective config) (some backend.pool) false false) := by
  have hread := flagsRead backend config
  have hoperands : operands (.operand (utf8 config.image) :: .operand (utf8 name) ::
      initOptions backend config) = [config.image, name].map utf8 :=
    congrArg (utf8 config.image :: utf8 name :: ·) (operands_initOptions backend config)
  have hvalues : ∀ flag, values flag (.operand (utf8 config.image) :: .operand (utf8 name) ::
      initOptions backend config) = values flag (initOptions backend config) := fun _ => rfl
  have hgiven : ∀ flag, isGiven flag (.operand (utf8 config.image) :: .operand (utf8 name) ::
      initOptions backend config) = isGiven flag (initFlags backend config) :=
    isGiven_initOptions backend config
  have hsizes : (config.diskSize.map ("root,size=".toList ++ ·)).toList.mapM
      (behind "root,size=".toList) = some config.diskSize.toList := by
    cases config.diskSize with
    | none => rfl
    | some size =>
      rw [Option.map_some, Option.toList_some, List.mapM_cons, behind_append]
      rfl
  have hpool : texts [utf8 backend.pool] = some [backend.pool] := texts_map [backend.pool]
  obtain ⟨hcpu, hprocesses, hpriority⟩ := numbers_read config
  obtain ⟨hboot, hnesting, hdevlxd⟩ := switches_read config
  obtain ⟨hmemory, henforce, hidmap⟩ := texts_read config
  have hsize : config.diskSize.toList.getLast? = (effective config).diskSize := by
    rw [effective]
    cases config.diskSize <;> split <;> rfl
  have hplain : (effective config).image = config.image ∧
      (effective config).ephemeral = config.ephemeral ∧ (effective config).vm = config.vm := by
    rw [effective]
    split <;> exact ⟨rfl, rfl, rfl⟩
  rw [readInit, hoperands, hvalues, hvalues, hvalues,
    values_initOptions backend config (by decide : flagName "config" ≠ flagName "storage"),
    values_initOptions backend config (by decide : flagName "config" ≠ flagName "device"),
    settings_initOptions, hread.storage, hread.device, texts_map, texts_map, texts_map]
  simp only [hpool, Option.bind_eq_bind, Option.bind_some, hsizes, readFields_settings,
    setting_present, hboot, hcpu, hprocesses, hpriority, hnesting, hdevlxd, hmemory, henforce,
    hidmap, hgiven, hread.noProfiles, hread.ephemeral, hread.vm, hsize, if_pos hname,
    Bool.not_not, Bool.not_true]
  rw [← hplain.1, ← hplain.2.1, ← hplain.2.2]
  rfl

/-- An instance is created as it is configured: on the pool of the backend, without
profiles and without access to the daemon. -/
theorem readCommand_create (hremote : backend.remote = none) (hname : IsPlain name)
    (himage : isOperand (utf8 config.image) = true) :
    readCommand (create backend name config) = some ⟨backend.project,
      .createInstance name (effective config) (some backend.pool) false false⟩ := by
  obtain ⟨args, heq, hargs⟩ := create_spelled backend name config
  have hsound : ∀ piece ∈ .operand (utf8 config.image) :: .operand (utf8 name) ::
      initOptions backend config, piece.Sound Verb.init.declared := by
    rw [List.forall_mem_cons, List.forall_mem_cons]
    exact ⟨himage, hname.isOperand, initOptions_sound backend config⟩
  rw [heq, readCommand_project hremote hargs hsound, readOperation,
    readInit_pieces backend name config hname]
  rfl

end Create

end InstanceCreation
