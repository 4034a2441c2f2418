import PipelineMigration.Text.Alphabet
import PipelineMigration.Text.LetterCaseTable
set_option autoImplicit false

/- Capital and small forms of a text. A letter may become several characters, and a capital
   sigma at the end of a word becomes the final small sigma. -/
namespace PipelineMigration.Text

def runShift? (runs : Array (Nat × Nat × Nat × Int)) (n : Nat) : Option Int :=
  (runs.find? fun (first, last, step, _) => first ≤ n && n ≤ last && (n - first) % step == 0).map
    (·.2.2.2)

def mapCase (runs : Array (Nat × Nat × Nat × Int)) (specials : Array (Nat × List Nat))
    (c : Char) : Text :=
  match specials.find? (·.1 == c.toNat) with
  | some (_, cs) => cs.map Char.ofNat
  | none => match runShift? runs c.toNat with
    | some shift => [Char.ofNat (c.toNat + shift).toNat]
    | none => [c]

def upperChar (c : Char) : Text :=
  if c.toNat < 128 then [c.toUpper] else mapCase upperRuns upperSpecials c

def lowerChar (c : Char) : Text :=
  if c.toNat < 128 then [c.toLower] else mapCase lowerRuns lowerSpecials c

def upper (s : Text) : Text := s.flatMap upperChar

/-- Whether the nearest character that case mappings do not skip is a cased letter. -/
def nearCased : Text → Bool
  | [] => false
  | c :: r => if switchedOn ignorableSwitches c.toNat then nearCased r
    else switchedOn casedSwitches c.toNat

/-- Small forms, with the characters already passed at hand in reverse. -/
def lowerAfter (passed : Text) : Text → Text
  | [] => []
  | c :: r =>
    let small := if c == 'Σ' then
        if nearCased passed && !nearCased r then ['ς'] else ['σ']
      else lowerChar c
    small ++ lowerAfter (c :: passed) r

def lower (s : Text) : Text := lowerAfter [] s

end PipelineMigration.Text
