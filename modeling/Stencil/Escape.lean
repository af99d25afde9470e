import Stencil.Path

/-!
# Escaping

The filter that output passes through. In HTML five characters are replaced by entities; each is
replaced once, so that an ampersand in the result always starts an entity. In plain output nothing
is replaced. Which filter a template uses follows from the extension of its file name, unless it is
chosen.
-/

namespace Stencil

/-- A filter for output. -/
inductive Escape where
  | html
  | plain
  deriving DecidableEq, Repr

namespace Escape

/-- What a character is replaced by in HTML. -/
def entity (c : Char) : List Char :=
  match c with
  | '&' => "&amp;".toList
  | '<' => "&lt;".toList
  | '>' => "&gt;".toList
  | '\'' => "&#39;".toList
  | '"' => "&quot;".toList
  | c => [c]

/-- The text with its special characters replaced by entities. -/
def escapeHtml (text : List Char) : List Char := text.flatMap entity

/-- Passes a text through the filter. -/
def apply (escape : Escape) (text : String) : String :=
  match escape with
  | html => String.ofList (escapeHtml text.toList)
  | plain => text

/-- The filter for a file of this name. -/
def ofName (name : String) : Escape :=
  match Path.extension? name with
  | some extension => if ["html", "xhtml", "xml"].contains extension then html else plain
  | none => plain

/-- The name of the filter. -/
def name : Escape → String
  | html => "html"
  | plain => "plain"

end Escape

/-- The type of the content of a file of this name, if it is known. -/
def contentType? (name : String) : Option String :=
  match Path.extension? name with
  | some "html" => some "text/html; charset=utf-8"
  | some "xhtml" => some "application/xhtml+xml; charset=utf-8"
  | some "txt" => some "text/plain"
  | _ => none

end Stencil
