import Celily.HostPaths

/-!
# Mounts and devices

What an instance gets besides its root disk and its NIC.
-/

namespace Devices

open RustText

inductive AccessMode where
  | readOnly
  | readWrite
  deriving DecidableEq

/-- A bind mount; its source is a path, or a canonical path once validated. -/
structure Mount (Source : Type) where
  source : Source
  target : Bytes
  access : AccessMode
  deriving DecidableEq

inductive Device where
  | disk (source target : Bytes) (access : AccessMode)
  | volume (name : Text) (target : Bytes) (access : AccessMode)
  | proxy (connect listen : Text) (uid gid hostUid hostGid : UInt32) (mode : Text)
  deriving DecidableEq

end Devices
