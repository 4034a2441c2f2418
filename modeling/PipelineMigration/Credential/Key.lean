import PipelineMigration.Text.LetterCase
set_option autoImplicit false

/- Keys of variables: capitals, digits and single underscores, not beginning with a digit, not
   beginning as the target's own keys do, and not too long. -/
namespace PipelineMigration

structure KeyPolicy where
  reservedPrefix : Text := "CI_"
  appMarker : Text := "APP_"
  maxLength : Int := 255
  warnLength : Int := 100
deriving DecidableEq

/-- The first `n` characters; a negative `n` leaves off that many at the end. -/
def upTo (n : Int) (s : Text) : Text :=
  if 0 ≤ n then s.take n.toNat else s.take (s.length - n.natAbs)

namespace KeyPolicy

def isKeyChar (c : Char) : Bool := ('A' ≤ c && c ≤ 'Z') || Text.isAsciiDigit c

def fallbackKey : Text := "UNNAMED_SECRET"

/-- The runs of key characters of a text in capitals, an underscore between each two. -/
def joinRuns (raw : Text) : Text :=
  Text.join "_" ((Text.splitWhere (fun c => !isKeyChar c) raw.upper).filter fun w => !w.isEmpty)

/-- A key that no rule on its beginning forbids. -/
def guardStart (p : KeyPolicy) (key : Text) : Text :=
  let key := if key.isEmpty then fallbackKey else key
  let key := if key.head?.any Text.isDigit then "VAR_".toList ++ key else key
  if p.reservedPrefix.isPrefixOf key then p.appMarker ++ key else key

def dropUnderscores (key : Text) : Text := Text.trimRightBy (· == '_') key

/-- The key for a raw name. -/
def key (p : KeyPolicy) (raw : Text) : Text :=
  let cut := dropUnderscores (upTo p.maxLength (p.guardStart (joinRuns raw)))
  if cut.isEmpty then fallbackKey else cut

/-- The key of a part of a composite credential; the base gives way to the ending. -/
def childKey (p : KeyPolicy) (base ending : Text) : Text :=
  dropUnderscores (upTo (p.maxLength - ending.length - 1) base) ++ '_' :: ending

/-- Whether a text is a capital or underscore, then capitals, digits and underscores; a line feed
    at its end does not count. -/
def hasKeyForm (s : Text) : Bool :=
  let body := if s.getLast? == some '\n' then s.dropLast else s
  match body with
  | [] => false
  | c :: r => (('A' ≤ c && c ≤ 'Z') || c == '_') && r.all fun d => isKeyChar d || d == '_'

end KeyPolicy
end PipelineMigration
