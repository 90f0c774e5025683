import Celily.HostPaths
import Mathlib.Data.BitVec

/-!
# Names of instances, bridges and users

An instance is named after its image, the working directory and a UUID, its bridge
after the image and the same UUID. Every character that survives is ASCII, so
lengths in bytes are lengths of the lists here.
-/

namespace InstanceNames

open RustText HostPaths

abbrev Uuid := BitVec 128

/-- The first eight hexadecimal digits of a UUID's text. -/
def uuid8 (uuid : Uuid) : Text :=
  (List.range 8).map fun i => Nat.digitChar (uuid.toNat / 16 ^ (31 - i) % 16)

/-- The letters and digits behind the last `/` or `:` of an image name, twenty at most. -/
def sanitizedImagePrefix (image : Text) : Text :=
  let last := (image.reverse.takeWhile fun c => c ≠ '/' && c ≠ ':').reverse
  let letters := last.filter Char.isAlphanum
  if letters = [] then "inst".toList else if letters.length > 20 then letters.take 20 else letters

/-- One character more of the path part, and whether it was a hyphen: runs of hyphens
become one, and there is none at the start. -/
def pushCollapsed (part : Text × Bool) (c : Char) : Text × Bool :=
  if c = '-' then
    (if !part.2 && !part.1.isEmpty then part.1 ++ ['-'] else part.1, true)
  else (part.1 ++ [c], false)

def trimHyphens (s : Text) : Text := s.dropWhile (· = '-')

/-- `trim_matches('-')`. -/
def trimBothHyphens (s : Text) : Text := (trimHyphens (trimHyphens s).reverse).reverse

/-- The path under `home` behind the word `home`, any other one whole. -/
def pathText (cwd home : Bytes) : Text :=
  if startsWith (components cwd) (components home) then
    "home-".toList ++
      fromUtf8Lossy (ofComponents ((components cwd).drop (components home).length))
  else (fromUtf8Lossy cwd).dropWhile (· = '/')

def pathPart (cwd home : Bytes) : Text :=
  let raw := (pathText cwd home).map fun c => if c.isAlphanum then c else '-'
  trimBothHyphens (raw.foldl pushCollapsed ([], false)).1

/-- `<image-prefix>-<path-fragment>-<uuid8>`; of a long path the end is kept. -/
def instanceName (cwd home : Bytes) (image : Text) (uuid : Uuid) : Text :=
  let imagePrefix := sanitizedImagePrefix image
  let part := pathPart cwd home
  let pathMax := 63 - (imagePrefix.length + 2 + 9)
  let part :=
    if part.length > pathMax then trimHyphens (part.drop (part.length - pathMax)) else part
  imagePrefix ++ '-' :: part ++ '-' :: uuid8 uuid

/-- `<prefix6>-<uuid8>`. -/
def bridgeName (image : Text) (uuid : Uuid) : Text :=
  (sanitizedImagePrefix image).take 6 ++ '-' :: uuid8 uuid

/-- A lowercase letter or `_`, then letters, digits, `_` and `-`; 32 bytes at most. -/
def isValidUsername (name : Text) : Bool :=
  match name with
  | [] => false
  | first :: rest =>
    (utf8 name).length ≤ 32 && (first.isLower || first = '_') &&
      rest.all fun c => c.isAlphanum || c = '_' || c = '-'

example : instanceName (utf8 "/home/user/projects/celily".toList) (utf8 "/home/user".toList)
    "images:ubuntu/24.04".toList 0xdeadbeef123456789abcdef012345678#128 =
    "2404-home-projects-celily-deadbeef".toList := by decide +kernel

end InstanceNames
