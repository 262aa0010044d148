import JvmAssembler.Constant.Basic
import JvmAssembler.Decimal.Layout
import JvmAssembler.Text.Quoted
import JvmAssembler.Text.Term

/-!
# The text of constants

How constants, values and indices are written for people: as terms, with strings quoted and
floating-point numbers as their shortest decimals.
-/

namespace JvmAssembler

open Text

/-- Numbers are positional from `1e-4` up to `1e16`. -/
def floatLayout : Decimal.Layout := ⟨-4, 16⟩

def Tag.name : Tag → String
  | .utf8 => "Utf8"
  | .integer => "Integer"
  | .float => "Float"
  | .long => "Long"
  | .double => "Double"
  | .classRef => "Class"
  | .stringRef => "String"
  | .nameAndType => "NameAndType"

def Entry.render {ρ : Type} (renderRef : ρ → String) (c : Entry ρ) : String :=
  match c with
  | .utf8 text => Term.apply c.tag.name (Quoted.quote text)
  | .integer value => Term.apply c.tag.name (toString value.toInt)
  | .float value => Term.apply c.tag.name (floatLayout.renderFloat value.value)
  | .long value => Term.apply c.tag.name (toString value.toInt)
  | .double value => Term.apply c.tag.name (floatLayout.renderFloat value.value)
  | .classRef name => Term.apply c.tag.name (renderRef name)
  | .stringRef text => Term.apply c.tag.name (renderRef text)
  | .nameAndType name descriptor =>
    Term.record c.tag.name [("name", renderRef name), ("descriptor", renderRef descriptor)]

def renderIndex (index : UInt16) : String :=
  Term.apply "ConstantIndex" (toString index.toNat)

def Constant.render (c : Constant) : String :=
  Entry.render (fun r => Term.apply "Utf8ConstantIndex" (renderIndex r.index)) c

def Value.render (v : Value) : String :=
  Entry.render Quoted.quote v

end JvmAssembler
