import PipelineMigration.Number.Reading
import PipelineMigration.Timestamp
import PipelineMigration.Yaml.Cursor
set_option autoImplicit false

/- The tokens of a YAML text, and why a text cannot be read as YAML. Besides breaking the rules of
   the language, a text can hold a scalar whose tag promises what its characters do not keep. -/
namespace PipelineMigration.Yaml

inductive Fault where
  | malformed
  /-- An escape beyond the last character. -/
  | beyondUnicode
  /-- An escape that does not even fit a machine integer. -/
  | beyondWord
  | notAnInteger (base : Nat) (text : Text)
  | integer (error : Number.IntegerError)
  | notAFloat (text : Text)
  | emptyNumber
  | notABoolean (text : Text)
  | notATime
  | calendar (fault : CalendarFault)
deriving DecidableEq

def Fault.message : Fault → Text
  | malformed => "Invalid YAML"
  | beyondUnicode => "chr() arg not in range(0x110000)"
  | beyondWord => "Python int too large to convert to C int"
  | notAnInteger base text =>
    "invalid literal for int() with base " ++ Text.ofNat base ++ ": " ++ (text.display).take 200
  | integer error => error.message
  | notAFloat text => Number.notAFloat text
  | emptyNumber => "string index out of range"
  | notABoolean text => text.display
  | notATime => "'NoneType' object has no attribute 'groupdict'"
  | calendar fault => fault.message

inductive Directive where
  | version (major : Nat)
  | tagHandle (handle uri : Text)
  | other
deriving DecidableEq

inductive Token where
  | directive (d : Directive)
  | documentStart | documentEnd
  | blockSequenceStart | blockMappingStart | blockEnd
  | flowSequenceStart | flowMappingStart | flowSequenceEnd | flowMappingEnd
  | blockEntry | flowEntry | key | value
  | alias (name : Text)
  | anchor (name : Text)
  | tag (handle : Option Text) (rest : Text)
  | scalar (text : Text) (plain : Bool)
  | streamEnd
  /-- The place from which the text cannot be read. -/
  | broken (fault : Fault)
deriving DecidableEq

end PipelineMigration.Yaml
