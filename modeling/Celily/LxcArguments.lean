import Celily.Devices
import Celily.HostFiles

/-!
# The arguments of lxc

The command lines behind two backend calls: a command in an instance, and a device that
is added to one.
-/

namespace LxcArguments

open RustText Devices HostFiles

structure LxcBackend where
  remote : Option Text
  project : Option Text
  /-- The storage pool of the root disks and the volumes. -/
  pool : Text
  binary : Text

def LxcBackend.lxd : LxcBackend := ⟨none, none, "default".toList, "lxc".toList⟩

def LxcBackend.incus : LxcBackend := ⟨none, none, "default".toList, "incus".toList⟩

/-- Options as the words of a command line, each one a flag and its value. -/
def optionWords (options : List (Bytes × Bytes)) : List Bytes :=
  options.flatMap fun option => [option.1, option.2]

/-- What scopes a command to the project and the remote. -/
def LxcBackend.scopeOptions (backend : LxcBackend) : List (Bytes × Bytes) :=
  (backend.project.map fun project => (utf8 "--project".toList, utf8 project)).toList ++
    (backend.remote.map fun remote => (utf8 "--remote".toList, utf8 remote)).toList

/-- The argument of an `--env`. -/
def envPair (entry : Text × Bytes) : Bytes := utf8 entry.1 ++ 61 :: entry.2

def execOptions (env : List (Text × Bytes)) (cwd : Bytes) (uid gid : UInt32) :
    List (Bytes × Bytes) :=
  (utf8 "--user".toList, utf8 (decimal uid.toNat)) ::
    (utf8 "--group".toList, utf8 (decimal gid.toNat)) :: (utf8 "--cwd".toList, cwd) ::
      env.map fun entry => (utf8 "--env".toList, envPair entry)

/-- `exec_argv`, the program first. -/
def LxcBackend.execArgv (backend : LxcBackend) (name : Text) (cmd : List Text)
    (env : List (Text × Bytes)) (cwd : Bytes) (uid gid : UInt32) : List Bytes :=
  utf8 backend.binary :: (optionWords backend.scopeOptions ++
    utf8 "exec".toList :: utf8 name :: (optionWords (execOptions env cwd uid gid) ++
      utf8 "--".toList :: cmd.map utf8))

example : ({ LxcBackend.incus with project := some "celily".toList }.execArgv "inst".toList
    ["git".toList] [("A".toList, utf8 "b=c".toList)] (utf8 "/home/dev".toList) 1000 1001) =
      ["incus", "--project", "celily", "exec", "inst", "--user", "1000", "--group", "1001",
        "--cwd", "/home/dev", "--env", "A=b=c", "--", "git"].map
          (fun word => utf8 word.toList) := by
  decide +kernel

/-- The environment that a command of the run gets besides the one it is given. -/
def execEnv (env : List (Text × Text)) (home : Option Bytes) (proxyUrl : Option Text) :
    List (Text × Bytes) :=
  env.map (fun entry => (entry.1, utf8 entry.2)) ++
    (home.map fun home => ("HOME".toList, home)).toList ++
    match proxyUrl with
    | none => []
    | some proxy =>
      [("HTTP_PROXY".toList, utf8 proxy), ("HTTPS_PROXY".toList, utf8 proxy),
        ("NO_PROXY".toList, []), ("NODE_USE_ENV_PROXY".toList, utf8 "1".toList),
        ("NODE_USE_SYSTEM_CA".toList, utf8 "1".toList)]

/-- The command line of `exec`. -/
def LxcBackend.exec (backend : LxcBackend) (name : Text) (command : List Text)
    (env : List (Text × Text)) (cwd : Bytes) (uid gid : UInt32) (home : Option Bytes)
    (proxyUrl : Option Text) : List Bytes :=
  backend.execArgv name command (execEnv env home proxyUrl) cwd uid gid

/-- What a disk and a volume have in common. -/
def mountArgs (target : Bytes) (access : AccessMode) : List Text :=
  ("path=".toList ++ display target) ::
    if access = .readOnly then ["readonly=true".toList] else []

/-- The device's type, then its properties. -/
def LxcBackend.deviceArgs (backend : LxcBackend) : Device → List Text
  | .disk source target access =>
    ["disk".toList, "source=".toList ++ display source] ++ mountArgs target access
  | .volume name target access =>
    ["disk".toList, "pool=".toList ++ backend.pool, "source=".toList ++ name] ++
      mountArgs target access
  | .proxy connect listen uid gid hostUid hostGid mode =>
    ["proxy".toList, "bind=instance".toList, "connect=".toList ++ connect,
      "listen=".toList ++ listen, "mode=".toList ++ mode, "uid=".toList ++ decimal uid.toNat,
      "gid=".toList ++ decimal gid.toNat, "security.uid=".toList ++ decimal hostUid.toNat,
      "security.gid=".toList ++ decimal hostGid.toNat]

end LxcArguments
