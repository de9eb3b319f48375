/-
  Lib.Archives — libraries that write files with their names into one file.

  `Archiver` is what a program that writes archives takes from such a library: a reader
  gets the names and the data that were written, in their order. When a file was written
  is for the library to store or not.

  Proved:
  - `framed`: there is such a library. It puts a 1 before each byte, a 0 after each field.
-/

import Mathlib.Data.List.Basic

namespace Lib.Archives

structure NewEntry where
  name : String
  lastWriteTime : Int
  data : List UInt8
  deriving DecidableEq, Repr

def NewEntry.content (entry : NewEntry) : String × List UInt8 := (entry.name, entry.data)

structure Archiver where
  write : List NewEntry → List UInt8
  read : List UInt8 → List (String × List UInt8)
  stores : ∀ entries, read (write entries) = entries.map NewEntry.content

/-! ## Fields -/

def frame (field : List UInt8) : List UInt8 := field.flatMap (fun b => [1, b]) ++ [0]

def unframe : List UInt8 → List (List UInt8)
  | [] => []
  | [_] => [[]]
  | mark :: b :: rest =>
    if mark = 1 then
      match unframe rest with
      | [] => [[b]]
      | field :: fields => (b :: field) :: fields
    else [] :: unframe (b :: rest)

theorem unframe_end (rest : List UInt8) : unframe (0 :: rest) = [] :: unframe rest := by
  cases rest <;> rfl

theorem unframe_frame (field rest : List UInt8) : unframe (frame field ++ rest) = field :: unframe rest := by
  induction field with
  | nil => exact unframe_end rest
  | cons b field ih =>
    have hcons : frame (b :: field) ++ rest = 1 :: b :: (frame field ++ rest) := by simp [frame]
    rw [hcons, unframe, if_pos rfl, ih]

theorem unframe_frames (fields : List (List UInt8)) : unframe (fields.flatMap frame) = fields := by
  induction fields with
  | nil => rfl
  | cons field fields ih => rw [List.flatMap_cons, unframe_frame, ih]

/-! ## Names -/

/-- Three bytes for each character. -/
def nameBytes (name : String) : List UInt8 :=
  name.toList.flatMap fun c =>
    [UInt8.ofNat (c.toNat / 65536), UInt8.ofNat (c.toNat / 256 % 256), UInt8.ofNat (c.toNat % 256)]

def nameChars : List UInt8 → List Char
  | a :: b :: c :: rest => Char.ofNat (a.toNat * 65536 + b.toNat * 256 + c.toNat) :: nameChars rest
  | _ => []

theorem nameChars_bytes (name : String) : nameChars (nameBytes name) = name.toList := by
  unfold nameBytes
  induction name.toList with
  | nil => rfl
  | cons c chars ih =>
    have hc : c.toNat < 1114112 := by
      rcases c.valid with hlow | ⟨-, hhigh⟩
      · have : c.toNat < 55296 := hlow
        omega
      · exact hhigh
    have hfirst : (UInt8.ofNat (c.toNat / 65536)).toNat = c.toNat / 65536 := by
      simp only [UInt8.toNat_ofNat']; omega
    have hsecond : (UInt8.ofNat (c.toNat / 256 % 256)).toNat = c.toNat / 256 % 256 := by
      simp only [UInt8.toNat_ofNat']; omega
    have hthird : (UInt8.ofNat (c.toNat % 256)).toNat = c.toNat % 256 := by
      simp only [UInt8.toNat_ofNat']; omega
    have hvalue : c.toNat / 65536 * 65536 + c.toNat / 256 % 256 * 256 + c.toNat % 256 = c.toNat := by omega
    simp only [List.flatMap_cons, List.cons_append, List.nil_append, nameChars]
    rw [hfirst, hsecond, hthird, hvalue, Char.ofNat_toNat, ih]

/-! ## The library -/

def fields (entries : List NewEntry) : List (List UInt8) := entries.flatMap fun e => [nameBytes e.name, e.data]

def contents : List (List UInt8) → List (String × List UInt8)
  | name :: data :: rest => (String.ofList (nameChars name), data) :: contents rest
  | _ => []

theorem contents_fields (entries : List NewEntry) : contents (fields entries) = entries.map NewEntry.content := by
  unfold fields
  induction entries with
  | nil => rfl
  | cons e entries ih =>
    simp only [List.flatMap_cons, List.cons_append, List.nil_append, contents, List.map_cons, NewEntry.content]
    rw [nameChars_bytes, String.ofList_toList, ih]

def framed : Archiver where
  write entries := (fields entries).flatMap frame
  read bytes := contents (unframe bytes)
  stores entries := by rw [unframe_frames, contents_fields]

example : framed.read (framed.write [⟨"a/б", 5, [0, 1]⟩, ⟨"", 6, []⟩]) = [("a/б", [0, 1]), ("", [])] := by decide

end Lib.Archives
