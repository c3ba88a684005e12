import Mathlib.Data.Int.Notation
import Wakterm.Machine.BinarySearch

/-!
# Cells

`Cell` and `CellAttributes` of `wakterm-cell`, and `CellRef`, one visible cell of a line with its
column.
-/

namespace Wakterm.Term

open Wakterm.Machine

/-- A `str`, as its characters. -/
abbrev Text : Type := List Char

/-- The text of a blank cell. -/
def space : Text := [' ']

/-- What `Graphemes::new` finds in a text, and whether `grapheme_column_width` of the latest
version of Unicode gives a grapheme two columns. -/
structure Graphemes where
  of : Text → List Text
  wide : Text → Bool

instance : CoeFun Graphemes fun _ => Text → List Text := ⟨Graphemes.of⟩

structure Hyperlink where
  uri : String
  implicit : Bool
  deriving DecidableEq

/-- `ImageCell`: the part of an image that it shows, where it is stacked, and the ids of the image
and of its placement, if it has them. -/
structure ImageCell where
  image : Nat
  zIndex : Int
  imageId : Option Nat
  placementId : Option Nat
  deriving DecidableEq

inductive SemanticType where
  | output | input | prompt
  deriving DecidableEq

/-- `CellAttributes`. Underline, overline and strikethrough are `decoration`; the attributes that
nothing here reads by themselves, such as the colours and the intensity, are `style`. -/
structure CellAttributes where
  wrapped : Bool
  hyperlink : Option Hyperlink
  images : List ImageCell
  semanticType : SemanticType
  decoration : Nat
  style : Nat
  deriving DecidableEq

namespace CellAttributes

/-- `CellAttributes::blank`, which is also the default. -/
def blank : CellAttributes := ⟨false, none, [], .output, 0, 0⟩

def cloneSgrOnly (a : CellAttributes) : CellAttributes :=
  { a with hyperlink := none, images := [], semanticType := .output, decoration := 0 }

def setWrapped (a : CellAttributes) (wrapped : Bool) : CellAttributes := { a with wrapped := wrapped }

/-- `attach_image`: behind or before the images of the same height. -/
def attachImage (a : CellAttributes) (image : ImageCell) : CellAttributes :=
  match binarySearchBy (fun probe => some (compare probe.zIndex image.zIndex)) a.images with
  | some (.ok i) | some (.error i) => { a with images := a.images.insertIdx i image }
  | none => a

def setImage (a : CellAttributes) (image : ImageCell) : CellAttributes := { a with images := [image] }

def detachImageWithPlacement (a : CellAttributes) (imageId : Nat) (placementId : Option Nat) :
    CellAttributes :=
  { a with images := a.images.filter fun im =>
      !(im.imageId = some imageId && im.placementId = placementId) }

end CellAttributes

/-- Has the text a special meaning to a terminal? -/
def isControl (text : Text) : Bool :=
  text = [] || text = ['\r', '\n'] ||
    (text.length = 1 && text.all fun c => c.toNat < 0x20 || c.toNat = 0x7f)

/-- `TeenyString::from_str`: control and movement characters are rewritten as a space. -/
def defang (text : Text) : Text := if isControl text then space else text

@[simp] theorem defang_space : defang space = space := by decide

@[simp] theorem defang_defang (text : Text) : defang (defang text) = defang text := by
  by_cases h : isControl text = true
  · rw [show defang text = space from if_pos h, defang_space]
  · rw [show defang text = text from if_neg h, show defang text = text from if_neg h]

def cellWidth (wide : Bool) : Nat := if wide then 2 else 1

/-- `Cell`. Its text was rewritten when it was made. -/
structure Cell where
  text : Text
  wide : Bool
  attrs : CellAttributes
  clean : defang text = text
  deriving DecidableEq

namespace Cell

def width (c : Cell) : Nat := cellWidth c.wide

def blankWithAttrs (attrs : CellAttributes) : Cell := ⟨space, false, attrs, defang_space⟩

def blank : Cell := blankWithAttrs .blank

/-- `cell == Cell::blank()`: texts are compared without their widths. -/
def isBlank (c : Cell) : Bool := decide (c.text = space ∧ c.attrs = .blank)

def newGraphemeWithWidth (text : Text) (wide : Bool) (attrs : CellAttributes) : Cell :=
  ⟨defang text, wide, attrs, defang_defang text⟩

/-- `Cell::new_grapheme`, without a version of Unicode. -/
def newGrapheme (graphemes : Graphemes) (text : Text) (attrs : CellAttributes) : Cell :=
  newGraphemeWithWidth text (graphemes.wide (defang text)) attrs

/-- `attrs_mut().set_wrapped`. -/
def setWrapped (c : Cell) (wrapped : Bool) : Cell := { c with attrs := c.attrs.setWrapped wrapped }

end Cell

structure CellRef where
  cellIndex : Nat
  text : Text
  wide : Bool
  attrs : CellAttributes
  deriving DecidableEq

def CellRef.width (c : CellRef) : Nat := cellWidth c.wide

/-- `CellRef::as_cell`. A cell that is stored as such is copied, and rewriting its text again
does nothing. -/
def CellRef.asCell (c : CellRef) : Cell := Cell.newGraphemeWithWidth c.text c.wide c.attrs

end Wakterm.Term
