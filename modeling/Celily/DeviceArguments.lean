import Celily.LxcArguments
import Celily.SegmentedLists

/-!
# Reading device arguments

A device goes to LXD as words: its type, then properties `key=value`. Read back, the
words give the device, except that a path which is not text is written with replacement
characters: LXD then mounts another path than the one that was validated.
-/

namespace DeviceArguments

open RustText Devices HostFiles LxcArguments SegmentedLists

/-! ## The reader -/

def readId (value : Text) : Option UInt32 := (parseUnsigned (2 ^ 32) value).map UInt32.ofNat

/-- A disk with a pool is a volume of it. -/
def readDisk (properties : List (Text × Text)) : Option (Option Text × Device) := do
  let source ← properties.lookup "source".toList
  let path ← properties.lookup "path".toList
  let access : AccessMode :=
    if properties.lookup "readonly".toList = some "true".toList then .readOnly else .readWrite
  match properties.lookup "pool".toList with
  | some pool => return (some pool, .volume source (utf8 path) access)
  | none => return (none, .disk (utf8 source) (utf8 path) access)

def readProxy (properties : List (Text × Text)) : Option (Option Text × Device) := do
  let connect ← properties.lookup "connect".toList
  let listen ← properties.lookup "listen".toList
  let mode ← properties.lookup "mode".toList
  let uid ← (properties.lookup "uid".toList).bind readId
  let gid ← (properties.lookup "gid".toList).bind readId
  let hostUid ← (properties.lookup "security.uid".toList).bind readId
  let hostGid ← (properties.lookup "security.gid".toList).bind readId
  return (none, .proxy connect listen uid gid hostUid hostGid mode)

/-- The device of a word list, and the pool of a volume. -/
def readDevice : List Text → Option (Option Text × Device)
  | [] => none
  | kind :: words => do
    let properties ← words.mapM (splitOnce '=')
    if kind = "disk".toList then readDisk properties
    else if kind = "proxy".toList then readProxy properties
    else none

/-- What the words of a device must say. -/
def described (backend : LxcBackend) : Device → Option Text × Device
  | .volume name target access => (some backend.pool, .volume name target access)
  | device => (none, device)

/-- What they do say: each path as it is displayed. -/
def shown (backend : LxcBackend) : Device → Option Text × Device
  | .disk source target access =>
    (none, .disk (utf8 (display source)) (utf8 (display target)) access)
  | .volume name target access => (some backend.pool, .volume name (utf8 (display target)) access)
  | .proxy connect listen uid gid hostUid hostGid mode =>
    (none, .proxy connect listen uid gid hostUid hostGid mode)

/-- The paths of a device. -/
def paths : Device → List Bytes
  | .disk source target _ => [source, target]
  | .volume _ target _ => [target]
  | .proxy .. => []

/-! ## The round trip -/

theorem utf8_display_iff (path : Bytes) :
    utf8 (display path) = path ↔ ∃ text, utf8 text = path := by
  constructor
  · exact fun hsame => ⟨_, hsame⟩
  · rintro ⟨text, rfl⟩
    rw [display, fromUtf8Lossy_utf8]

theorem readId_decimal (id : UInt32) : readId (decimal id.toNat) = some id := by
  rw [readId, parseUnsigned_decimal id.toNat_lt, Option.map_some, UInt32.ofNat_toNat]

def word (property : Text × Text) : Text := property.1 ++ '=' :: property.2

theorem mapM_splitOnce_word {properties : List (Text × Text)}
    (hkeys : ∀ property ∈ properties, '=' ∉ property.1) :
    (properties.map word).mapM (splitOnce '=') = some properties := by
  induction properties with
  | nil => rfl
  | cons property properties ih =>
    obtain ⟨hkey, hkeys⟩ := List.forall_mem_cons.mp hkeys
    rw [List.map_cons, List.mapM_cons, word, splitOnce_append hkey, ih hkeys]
    rfl

/-- The properties of a path that an instance sees. -/
def mountProperties (target : Bytes) (access : AccessMode) : List (Text × Text) :=
  ("path".toList, display target) ::
    if access = .readOnly then [("readonly".toList, "true".toList)] else []

theorem mountArgs_eq (target : Bytes) (access : AccessMode) :
    mountArgs target access = (mountProperties target access).map word := by
  cases access with
  | readOnly => rfl
  | readWrite => rfl

theorem mountProperties_keys (target : Bytes) (access : AccessMode) :
    ∀ property ∈ mountProperties target access, '=' ∉ property.1 := by
  intro property hproperty
  cases access with
  | readOnly =>
    rcases List.mem_pair.mp hproperty with rfl | rfl
    · exact (by decide : '=' ∉ "path".toList)
    · exact (by decide : '=' ∉ "readonly".toList)
  | readWrite =>
    obtain rfl := List.mem_singleton.mp hproperty
    exact (by decide : '=' ∉ "path".toList)

theorem readDevice_deviceArgs (backend : LxcBackend) (device : Device) :
    readDevice (backend.deviceArgs device) = some (shown backend device) := by
  cases device with
  | disk source target access =>
    have hwords : backend.deviceArgs (.disk source target access) = "disk".toList ::
        (("source".toList, display source) :: mountProperties target access).map word := by
      rw [List.map_cons, ← mountArgs_eq]
      rfl
    rw [hwords, readDevice, mapM_splitOnce_word]
    · cases access with
      | readOnly => rfl
      | readWrite => rfl
    · rw [List.forall_mem_cons]
      exact ⟨(by decide : '=' ∉ "source".toList), mountProperties_keys target access⟩
  | volume name target access =>
    have hwords : backend.deviceArgs (.volume name target access) = "disk".toList ::
        (("pool".toList, backend.pool) :: ("source".toList, name) ::
          mountProperties target access).map word := by
      rw [List.map_cons, List.map_cons, ← mountArgs_eq]
      rfl
    rw [hwords, readDevice, mapM_splitOnce_word]
    · cases access with
      | readOnly => rfl
      | readWrite => rfl
    · rw [List.forall_mem_cons, List.forall_mem_cons]
      exact ⟨(by decide : '=' ∉ "pool".toList), (by decide : '=' ∉ "source".toList),
        mountProperties_keys target access⟩
  | proxy connect listen uid gid hostUid hostGid mode =>
    have hbind : "bind=instance".toList = word ("bind".toList, "instance".toList) := by decide
    have hwords : backend.deviceArgs (.proxy connect listen uid gid hostUid hostGid mode) =
        "proxy".toList :: [("bind".toList, "instance".toList), ("connect".toList, connect),
          ("listen".toList, listen), ("mode".toList, mode), ("uid".toList, decimal uid.toNat),
          ("gid".toList, decimal gid.toNat), ("security.uid".toList, decimal hostUid.toNat),
          ("security.gid".toList, decimal hostGid.toNat)].map word := by
      rw [LxcBackend.deviceArgs, hbind]
      rfl
    rw [hwords, readDevice, mapM_splitOnce_word]
    · have hread : readProxy [("bind".toList, "instance".toList), ("connect".toList, connect),
          ("listen".toList, listen), ("mode".toList, mode), ("uid".toList, decimal uid.toNat),
          ("gid".toList, decimal gid.toNat), ("security.uid".toList, decimal hostUid.toNat),
          ("security.gid".toList, decimal hostGid.toNat)] =
          (readId (decimal uid.toNat)).bind fun uid => (readId (decimal gid.toNat)).bind fun gid =>
            (readId (decimal hostUid.toNat)).bind fun hostUid =>
              (readId (decimal hostGid.toNat)).bind fun hostGid =>
                some (none, .proxy connect listen uid gid hostUid hostGid mode) := rfl
      rw [readId_decimal, readId_decimal, readId_decimal, readId_decimal] at hread
      exact hread
    · intro property hproperty
      simp only [List.mem_cons, List.not_mem_nil, or_false] at hproperty
      rcases hproperty with rfl | rfl | rfl | rfl | rfl | rfl | rfl | rfl
      all_goals
        dsimp only
        decide

theorem shown_eq_described_iff (backend : LxcBackend) (device : Device) :
    shown backend device = described backend device ↔
      ∀ path ∈ paths device, ∃ text, utf8 text = path := by
  cases device with
  | disk source target access =>
    simp only [shown, described, paths, Prod.mk.injEq, Device.disk.injEq, true_and, and_true,
      utf8_display_iff, List.forall_mem_cons, List.not_mem_nil, false_implies, implies_true]
  | volume name target access =>
    simp only [shown, described, paths, Prod.mk.injEq, Device.volume.injEq, true_and, and_true,
      utf8_display_iff, List.forall_mem_cons, List.not_mem_nil, false_implies, implies_true]
  | proxy connect listen uid gid hostUid hostGid mode =>
    exact iff_of_true rfl fun path hpath => nomatch hpath

theorem readonly_ne {c : Char} (hc : 'r' ≠ c) (rest : Text) :
    "readonly=true".toList ≠ c :: rest :=
  fun h => hc (List.cons.inj (show 'r' :: "eadonly=true".toList = c :: rest from h)).1

theorem readonly_mem_mountArgs (target : Bytes) (access : AccessMode) :
    "readonly=true".toList ∈ mountArgs target access ↔ access = .readOnly := by
  have hpath : "readonly=true".toList ≠ "path=".toList ++ display target :=
    readonly_ne (by decide) ("ath=".toList ++ display target)
  rw [mountArgs, List.mem_cons, or_iff_right hpath]
  cases access with
  | readOnly => exact iff_of_true List.mem_cons_self rfl
  | readWrite => exact iff_of_false List.not_mem_nil (by decide)

theorem readonly_mem_deviceArgs (backend : LxcBackend) (source target : Bytes) (name : Text)
    (access : AccessMode) :
    ("readonly=true".toList ∈ backend.deviceArgs (.disk source target access) ↔
      access = .readOnly) ∧
    ("readonly=true".toList ∈ backend.deviceArgs (.volume name target access) ↔
      access = .readOnly) := by
  have hdisk : "readonly=true".toList ≠ "disk".toList := readonly_ne (by decide) "isk".toList
  have hpool : "readonly=true".toList ≠ "pool=".toList ++ backend.pool :=
    readonly_ne (by decide) ("ool=".toList ++ backend.pool)
  have hsource : ∀ text, "readonly=true".toList ≠ "source=".toList ++ text :=
    fun text => readonly_ne (by decide) ("ource=".toList ++ text)
  constructor
  · rw [LxcBackend.deviceArgs, List.mem_append, List.mem_pair,
      or_iff_right (not_or.mpr ⟨hdisk, hsource _⟩)]
    exact readonly_mem_mountArgs target access
  · rw [LxcBackend.deviceArgs, List.mem_append, List.mem_cons, List.mem_pair,
      or_iff_right (not_or.mpr ⟨hdisk, not_or.mpr ⟨hpool, hsource _⟩⟩)]
    exact readonly_mem_mountArgs target access

theorem described_injective (backend : LxcBackend) {device other : Device}
    (heq : described backend device = described backend other) : device = other := by
  have hsnd : ∀ device, (described backend device).2 = device := by
    intro device
    cases device with
    | disk => rfl
    | volume => rfl
    | proxy => rfl
  rw [← hsnd device, heq, hsnd]

/-- Devices that are displayed as the same one have the same words. -/
theorem deviceArgs_eq_iff (backend : LxcBackend) (device other : Device) :
    backend.deviceArgs device = backend.deviceArgs other ↔
      shown backend device = shown backend other := by
  have hargs : ∀ device, backend.deviceArgs (shown backend device).2 =
      backend.deviceArgs device := by
    intro device
    cases device with
    | disk source target access =>
      simp only [shown, LxcBackend.deviceArgs, mountArgs, display, fromUtf8Lossy_utf8]
    | volume name target access =>
      simp only [shown, LxcBackend.deviceArgs, mountArgs, display, fromUtf8Lossy_utf8]
    | proxy connect listen uid gid hostUid hostGid mode => rfl
  constructor
  · intro heq
    have hread := congrArg readDevice heq
    rw [readDevice_deviceArgs, readDevice_deviceArgs] at hread
    exact Option.some.inj hread
  · intro heq
    rw [← hargs device, heq, hargs]

/-- The words of a device are read back as that device if and only if its paths are text;
`readonly=true` stands for read-only access alone, and devices whose paths are text have
different words. -/
theorem deviceArgs_round (backend : LxcBackend) :
    (∀ device, readDevice (backend.deviceArgs device) = some (described backend device) ↔
      ∀ path ∈ paths device, ∃ text, utf8 text = path) ∧
    (∀ source target name access,
      ("readonly=true".toList ∈ backend.deviceArgs (.disk source target access) ↔
        access = .readOnly) ∧
      ("readonly=true".toList ∈ backend.deviceArgs (.volume name target access) ↔
        access = .readOnly)) ∧
    (∀ device other, backend.deviceArgs device = backend.deviceArgs other ↔
      shown backend device = shown backend other) ∧
    ∀ device other, (∀ path ∈ paths device ++ paths other, ∃ text, utf8 text = path) →
      (backend.deviceArgs device = backend.deviceArgs other ↔ device = other) := by
  refine ⟨fun device => ?_, readonly_mem_deviceArgs backend, deviceArgs_eq_iff backend, ?_⟩
  · rw [readDevice_deviceArgs, Option.some_inj, shown_eq_described_iff]
  · intro device other htext
    have hdevice := (shown_eq_described_iff backend device).mpr fun path hpath =>
      htext path (List.mem_append_left _ hpath)
    have hother := (shown_eq_described_iff backend other).mpr fun path hpath =>
      htext path (List.mem_append_right _ hpath)
    rw [deviceArgs_eq_iff, hdevice, hother]
    exact ⟨described_injective backend, congrArg _⟩

/-- A directory whose name is the byte 255 is mounted as the one whose name is the
replacement character. -/
theorem deviceArgs_not_text :
    readDevice (LxcBackend.lxd.deviceArgs (.disk [47, 255] [47] .readWrite)) ≠
      some (described .lxd (.disk [47, 255] [47] .readWrite)) ∧
    LxcBackend.lxd.deviceArgs (.disk [47, 255] [47] .readWrite) =
      LxcBackend.lxd.deviceArgs (.disk (utf8 "/\ufffd".toList) [47] .readWrite) := by
  constructor
  · rw [readDevice_deviceArgs]
    decide
  · decide

end DeviceArguments
