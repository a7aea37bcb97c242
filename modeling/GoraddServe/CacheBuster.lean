import GoraddServe.GoMaps
import GoraddServe.GoPaths
import GoraddServe.Panics
import GoraddServe.ResponseWriters
import Mathlib.Data.Nat.Digits.Defs

/-!
# Asset URLs

The URL of an asset has the checksum of the file in an element before the file name, so that it
changes with the file. The element is found by its beginning and taken out again before the file
is looked for.
-/
namespace GoraddServe.CacheBuster
open GoMaps GoPaths Panics ResponseWriters

/-- The tests of the `strings` packages for how a string begins and ends. -/
structure StringTests where
  startsWith : Path → Path → Bool
  startsWith_iff : ∀ s beginning, startsWith s beginning = true ↔ beginning <+: s
  endsWith : Path → Path → Bool
  endsWith_iff : ∀ s ending, endsWith s ending = true ↔ ending <:+ s

def cacheBusterPrefix : Path := bytes "gr."

def sliceOutOfRange : PanicValue := .error "runtime error: slice bounds out of range [:-1]"

/-- `StripCacheBusterPath(fPath)`, which takes the last byte from the directory of any path. -/
def stripCacheBusterPath (strs : StringTests) (fPath : Path) : Except PanicValue Path :=
  let (dir, f) := split fPath
  if dir = [] then .error sliceOutOfRange
  else
    let (dir2, f2) := split dir.dropLast
    if strs.startsWith f2 cacheBusterPrefix then .ok (join [dir2, f]) else .ok fPath

def crcPoly : UInt64 := 0xC96C5795D7870F42

/-- `crcTable[i]` -/
def crcEntry (i : UInt64) : UInt64 :=
  (List.range 8).foldl (fun crc _ => if crc &&& 1 = 1 then (crc >>> 1) ^^^ crcPoly else crc >>> 1) i

/-- `crc64.Checksum(data, crcTable)` -/
def checksum (data : Bytes) : UInt64 :=
  ~~~data.foldl (fun crc v => crcEntry ((crc ^^^ v.toUInt64) &&& 0xFF) ^^^ (crc >>> 8)) (~~~0)

def digit (d : ℕ) : UInt8 := if d < 10 then UInt8.ofNat (48 + d) else UInt8.ofNat (87 + d)

/-- The digits of a number to the base 36. -/
def digits36 (n : ℕ) : Path := if n = 0 then [48] else ((Nat.digits 36 n).map digit).reverse

/-- `strconv.FormatInt(i, 36)` -/
def formatInt36 (i : Int) : Path := if i < 0 then 45 :: digits36 i.natAbs else digits36 i.natAbs

theorem mem_digits36 {n : ℕ} {b : UInt8} (h : b ∈ digits36 n) : ∃ d < 36, b = digit d := by
  rw [digits36] at h
  split at h
  · exact ⟨0, by decide, List.mem_singleton.mp h⟩
  · obtain ⟨d, hd, rfl⟩ := List.mem_map.mp (List.mem_reverse.mp h)
    exact ⟨d, Nat.digits_lt_base (by decide) hd, rfl⟩

theorem mem_formatInt36 {i : Int} {b : UInt8} (h : b ∈ formatInt36 i) :
    b = 45 ∨ ∃ d < 36, b = digit d := by
  rw [formatInt36] at h
  split at h
  · exact (List.mem_cons.mp h).imp_right mem_digits36
  · exact .inr (mem_digits36 h)

/-- A checksum as it is written into a URL, with a minus sign or without. -/
structure Hash where
  text : Path
  digits : ∀ b ∈ text, b = 45 ∨ ∃ d < 36, b = digit d

def hash (data : Bytes) : Hash :=
  ⟨formatInt36 (checksum data).toInt64.toInt, fun _ => mem_formatInt36⟩

theorem Hash.notMem (h : Hash) {b : UInt8} (hminus : b ≠ 45) (hdigit : ∀ d < 36, b ≠ digit d) :
    b ∉ h.text := by
  intro hb
  rcases h.digits b hb with rfl | ⟨d, hd, rfl⟩
  · exact hminus rfl
  · exact hdigit d hd rfl

theorem Hash.noSlash (h : Hash) : slash ∉ h.text := h.notMem (by decide) (by decide)

/-- `cacheBuster` -/
abbrev Checksums := GoMap Path Hash

def cacheBustedPath (cacheBuster : Checksums) (url : Path) : Path :=
  match cacheBuster.get url with
  | some p =>
    let (dir, file) := split url
    join [dir, cacheBusterPrefix ++ p.text, file]
  | none => url

section Strip

variable {strs : StringTests} {p e n : Path} {D : List Path}

theorem stripCacheBusterPath_eq_error : stripCacheBusterPath strs p = .error sliceOutOfRange ↔
    slash ∉ p := by
  rw [← split_fst_eq_nil, stripCacheBusterPath]
  by_cases hdir : (split p).1 = []
  · simp [hdir]
  · simp only [hdir, if_false, iff_false]
    split <;> simp

theorem stripCacheBusterPath_ok (h : slash ∈ p) : ∃ q, stripCacheBusterPath strs p = .ok q := by
  have hdir : (split p).1 ≠ [] := fun hdir => split_fst_eq_nil.mp hdir h
  rw [stripCacheBusterPath]
  dsimp only
  rw [if_neg hdir]
  split
  · exact ⟨_, rfl⟩
  · exact ⟨_, rfl⟩

theorem isName_busted (h : Hash) : IsName (cacheBusterPrefix ++ h.text) := by
  have hbytes : cacheBusterPrefix = [103, 114, 46] := by decide
  rw [hbytes]
  refine ⟨⟨by simp, by simp [dot], by simp [dot]⟩, fun hslash => ?_⟩
  rcases List.mem_append.mp hslash with hslash | hslash
  · exact absurd hslash (by decide)
  · exact h.noSlash hslash

theorem stripCacheBusterPath_busted (hD : ∀ d ∈ D, IsName d) (he : IsName e) (h : Hash) :
    stripCacheBusterPath strs (dirs (D ++ [cacheBusterPrefix ++ h.text]) ++ e) =
      .ok (dirs D ++ e) := by
  have hn := isName_busted h
  have hlast : (dirs (D ++ [cacheBusterPrefix ++ h.text])).dropLast =
      dirs D ++ (cacheBusterPrefix ++ h.text) := by
    simp [← List.append_assoc, List.dropLast_append_of_ne_nil]
  have hne : dirs (D ++ [cacheBusterPrefix ++ h.text]) ≠ [] := by simp
  rw [stripCacheBusterPath, split_dirs he.noSlash]
  dsimp only
  rw [if_neg hne, hlast, split_dirs hn.noSlash]
  dsimp only
  rw [if_pos ((strs.startsWith_iff _ _).mpr (List.prefix_append _ _)), join_dirs hD he]

end Strip

end GoraddServe.CacheBuster
