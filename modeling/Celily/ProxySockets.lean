import Celily.MountValidation
import Celily.Devices

/-!
# Validation of proxied sockets

A host socket may be exposed when it is in the home or the runtime directory, not a
sensitive one, and out of the reach of the instance's own read-write mounts.
-/

namespace ProxySockets

open RustText HostPaths PathResolution HostFiles HomeSymlinks MountValidation Devices

/-- `$XDG_RUNTIME_DIR`, or the directory that logins get. -/
def runtimeDirRaw (host : Host) : Bytes :=
  utf8 ((host.env "XDG_RUNTIME_DIR".toList).getD ("/run/user/".toList ++ decimal host.uid.toNat))

/-- The runtime directory, as it is written when it cannot be canonicalized. -/
inductive RuntimeDir where
  | resolved (path : Canonical)
  | raw (path : Bytes)

def runtimeDir (host : Host) : RuntimeDir :=
  match canonicalize host.files host.workingDir (runtimeDirRaw host) with
  | .ok path => .resolved path
  | .error _ => .raw (runtimeDirRaw host)

def RuntimeDir.display : RuntimeDir → Text
  | .resolved path => displayCanonical path
  | .raw path => HostFiles.display path

/-- Whether a canonical path is the runtime directory or under it. Every path starts
with an empty one. -/
def RuntimeDir.contains (dir : RuntimeDir) (socket : Canonical) : Bool :=
  match dir with
  | .resolved path => isUnderOrEq socket path
  | .raw path => startsWith (.root :: socket.map .name) (components path)

/-- `runtime_dir.join(segment).canonicalize()`. -/
def RuntimeDir.canonicalizeIn (host : Host) (dir : RuntimeDir) (segment : Text) :
    Except Trouble Canonical :=
  match dir with
  | .resolved path => HostFiles.canonicalizeIn host.files path segment
  | .raw path => canonicalize host.files host.workingDir (join path (utf8 segment))

def RuntimeDir.forbid (host : Host) (dir : RuntimeDir) (segment : Text)
    (entry : Canonical → Text → Forbidden) : List Forbidden :=
  match dir.canonicalizeIn host segment with
  | .ok blocked => [entry blocked ("$XDG_RUNTIME_DIR/".toList ++ segment)]
  | .error _ => []

def buildProxyForbiddenList (host : Host) (home : Canonical) (dir : RuntimeDir) :
    List Forbidden :=
  Forbidden.under host.files home ".ssh/agent".toList "~/.ssh/agent".toList ++
    ["gnupg", "keyring", "rbw", "gcr", "p11-kit", "systemd", "podman"].flatMap (fun segment =>
      dir.forbid host segment.toList .subtree) ++
    dir.forbid host "bus".toList .exact

/-- A sandbox could replace what is under one of its read-write mounts. -/
def checkWritable (path : Text) (canonical : Canonical) (mounts : List (Mount Canonical)) :
    Anyhow Unit :=
  match mounts.find? fun mount =>
      mount.access = .readWrite && isUnderOrEq canonical mount.source with
  | some mount =>
    bail ("proxy socket ".toList ++ path ++ " is under the read-write mount ".toList ++
      displayCanonical mount.source ++ ": the sandbox could replace it".toList)
  | none => pure ()

def validateProxyConnect (host : Host) (connect : Text) (home : Canonical)
    (mounts : List (Mount Canonical)) : Anyhow Canonical :=
  match stripPrefix "unix:".toList connect with
  | none =>
    bail "proxy connect must start with `unix:` (only Unix sockets are supported)".toList
  | some path => do
    let canonical ← withContext ("cannot resolve proxy socket ".toList ++ path)
      (canonicalizeInHome host.files host.workingDir (utf8 path) home)
    let dir := runtimeDir host
    checkForbidden ("cannot proxy socket ".toList ++ path) canonical
      (buildProxyForbiddenList host home dir)
    ensure (isUnderOrEq canonical home || dir.contains canonical)
      ("proxy socket ".toList ++ path ++ " is not under ".toList ++ displayCanonical home ++
        " or ".toList ++ dir.display)
    checkWritable path canonical mounts
    pure canonical

end ProxySockets
