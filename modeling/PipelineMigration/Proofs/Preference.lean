import PipelineMigration.CommandLine.Session
import PipelineMigration.Preference
import PipelineMigration.Proofs.Json.RoundTrip
import PipelineMigration.Proofs.Outcome
import PipelineMigration.Proofs.Text.Occurrence
import PipelineMigration.Proofs.Text.Trim
set_option autoImplicit false

/- The usual form of a preference is its own usual form. An address is the exception: the slashes at its end are
   taken off behind the blanks, and a blank in front of them stays. -/
namespace PipelineMigration

namespace Text

-- A character that is not in any piece is one that the text is cut at.
theorem split_where_covers {p : Char → Bool} {s : Text} {c : Char} (member : c ∈ s) :
    p c = true ∨ ∃ w ∈ splitWhere p s, c ∈ w := by
  induction s with
  | nil => cases member
  | cons d t ih =>
    by_cases cut : p d = true
    · rcases List.mem_cons.1 member with rfl | later
      · exact .inl cut
      · rw [splitWhere, if_pos cut]
        exact (ih later).imp_right fun ⟨w, piece, inside⟩ => ⟨w, List.mem_cons_of_mem _ piece, inside⟩
    · rw [splitWhere, if_neg cut]
      cases pieces : splitWhere p t with
      | nil =>
        rw [pieces] at ih
        rcases List.mem_cons.1 member with rfl | later
        · exact .inr ⟨[c], by simp⟩
        · exact (ih later).imp_right fun ⟨w, piece, _⟩ => nomatch piece
      | cons v vs =>
        rw [pieces] at ih
        rcases List.mem_cons.1 member with rfl | later
        · exact .inr ⟨c :: v, by simp⟩
        · refine (ih later).imp_right fun ⟨w, piece, inside⟩ => ?_
          rcases List.mem_cons.1 piece with rfl | other
          · exact ⟨d :: w, by simp [inside]⟩
          · exact ⟨w, List.mem_cons_of_mem _ other, inside⟩

end Text

namespace KnownPreference

variable {key : KnownPreference} {given kept s : Text}

section Address

/-- Slashes at the end of a text, its outer blanks aside, and a blank in front of them. -/
def SlashesBehindBlank (given : Text) : Prop :=
  ∃ front c slashes, Text.trim given = front ++ c :: slashes ∧ Text.isBlank c = true ∧ ∀ d ∈ slashes, isSlash d = true

-- The scheme of an address and the character behind it stay when blanks or slashes are taken off at the end.
theorem web_address_cut {p : Char → Bool} (harmless : ∀ c, p c = true → isSlash c = true ∨ Text.isBlank c = true)
    (address : isWebAddress s = true) : isWebAddress (Text.trimRightBy p s) = true := by
  unfold isWebAddress at address ⊢
  obtain ⟨scheme, listed, front⟩ := List.any_eq_true.1 address
  obtain ⟨begins, named⟩ := Bool.and_eq_true_iff.1 front
  obtain ⟨rest, rfl⟩ := List.isPrefixOf_iff_prefix.1 begins
  rw [List.drop_left] at named
  cases rest with
  | nil => cases named
  | cons c rest =>
    have plain : p c = false := by
      refine Bool.eq_false_iff.2 fun cut => ?_
      rcases harmless c cut with slash | blank
      · simp [slash] at named
      · simp [blank] at named
    have whole : Text.trimRightBy p (scheme ++ c :: rest) = scheme ++ c :: Text.trimRightBy p rest :=
      Text.trim_right_behind scheme rest plain
    refine List.any_eq_true.2 ⟨scheme, listed, ?_⟩
    rw [whole, List.drop_left]
    exact Bool.and_eq_true_iff.2 ⟨List.isPrefixOf_iff_prefix.2 (List.prefix_append _ _), named⟩

-- An address ends in a blank just when slashes were taken off behind it.
theorem address_blank_iff (given : Text) :
    (∃ c ∈ (Text.trimRightBy isSlash (Text.trim given)).getLast?, Text.isBlank c = true) ↔ SlashesBehindBlank given := by
  constructor
  · rintro ⟨c, last, blank⟩
    obtain ⟨front, same⟩ := List.getLast?_eq_some_iff.1 last
    obtain ⟨slashes, whole⟩ : ∃ slashes, Text.trimRightBy isSlash (Text.trim given) ++ slashes = Text.trim given ∧
        ∀ d ∈ slashes, isSlash d = true :=
      ⟨_, List.rdropWhile_append_rtakeWhile, fun d member => List.mem_rtakeWhile_imp member⟩
    refine ⟨front, c, slashes, ?_, blank, whole.2⟩
    rw [← whole.1, same, List.append_assoc, List.singleton_append]
  · rintro ⟨front, c, slashes, whole, blank, all⟩
    have plain : isSlash c = false := Bool.eq_false_iff.2 fun slash => by
      rw [beq_iff_eq.1 slash] at blank
      exact absurd blank (by decide)
    have none : Text.trimRightBy isSlash slashes = [] := List.rdropWhile_eq_nil_iff.2 all
    refine ⟨c, ?_, blank⟩
    rw [whole, Text.trim_right_behind front slashes plain, none]
    simp

end Address

section Project

theorem project_unblank (project : isProject s = true) : ∀ c ∈ s, Text.isBlank c = false := by
  have undecimal : ∀ c, Text.isBlank c = true → Text.isDecimal c = false := fun c blank => by
    have none : ∀ n ∈ Number.blankCodes, Text.isDecimal (Char.ofNat n) = false := by decide +kernel
    have held := none c.toNat (Number.blank_code blank)
    rwa [Char.ofNat_toNat] at held
  have unpath : ∀ c, Text.isBlank c = true → isSlash c = false ∧ isPathCharacter c = false := fun c blank => by
    have none : ∀ n ∈ Number.blankCodes, isSlash (Char.ofNat n) = false ∧ isPathCharacter (Char.ofNat n) = false := by
      decide +kernel
    have held := none c.toNat (Number.blank_code blank)
    rwa [Char.ofNat_toNat] at held
  intro c member
  refine Bool.eq_false_iff.2 fun blank => ?_
  rcases Bool.or_eq_true_iff.1 project with digits | names
  · have digit := List.all_eq_true.1 (Bool.and_eq_true_iff.1 digits).2 c member
    rw [undecimal c blank] at digit
    cases digit
  · obtain ⟨-, each⟩ := Bool.and_eq_true_iff.1 names
    rcases Text.split_where_covers (p := isSlash) member with slash | ⟨w, piece, inside⟩
    · rw [(unpath c blank).1] at slash
      cases slash
    · have named := List.all_eq_true.1 (Bool.and_eq_true_iff.1 (List.all_eq_true.1 each w piece)).2 c inside
      rw [(unpath c blank).2] at named
      cases named

end Project

/-- The kept form of a preference is accepted again and is free of slashes at the end of an address. It stays as it is
    when no blank stands at its ends, which is so unless an address was given with a blank in front of slashes at its
    end. -/
theorem normalize_stable_iff (accepted : key.normalize given = .ok kept) :
    (∃ again, key.normalize kept = .ok again) ∧
    (key.normalize kept = .ok kept ↔ Text.trim kept = kept) ∧
    (Text.trim kept = kept ↔ ¬ (key = .serverUrl ∧ SlashesBehindBlank given)) ∧
    (key = .serverUrl → kept.getLast? ≠ some '/') := by
  cases key with
  | serverUrl =>
    obtain ⟨address, rfl⟩ := Outcome.if_ok accepted
    have first : ∀ d ∈ (Text.trimRightBy isSlash (Text.trim given)).head?, Text.isBlank d = false :=
      fun d front => Text.trim_by_head d (Text.trim_right_head d front)
    have blanks := address_blank_iff given
    have last := Text.trim_right_last (p := isSlash) (s := Text.trim given)
    generalize Text.trimRightBy isSlash (Text.trim given) = kept at address first blanks last
    have trimmed : Text.trim kept = Text.trimRightBy Text.isBlank kept := by
      rw [Text.trim, Text.trimBy, Text.trim_left_self first]
    have again : normalize .serverUrl kept = .ok (Text.trimRightBy isSlash (Text.trimRightBy Text.isBlank kept)) := by
      have front := web_address_cut (p := Text.isBlank) (fun _ => .inr) address
      have whole := web_address_cut (p := isSlash) (fun _ => .inl) front
      unfold normalize
      dsimp only
      rw [trimmed, if_pos whole]
    refine ⟨⟨_, again⟩, ?_, ?_, fun _ slash => ?_⟩
    · rw [again, trimmed, Except.ok.injEq]
      refine ⟨Text.trim_right_twice, fun same => ?_⟩
      rw [same, Text.trim_right_self last]
    · rw [trimmed, Text.trim_right_self_iff, ← blanks]
      simp
    · exact absurd (last '/' slash) (by decide)
  | environmentScope =>
    obtain ⟨filled, rfl⟩ := Outcome.unless_ok accepted
    have stable : Text.trim (Text.trim given) = Text.trim given := Text.trim_by_stable
    have again : normalize .environmentScope (Text.trim given) = .ok (Text.trim given) := by
      unfold normalize
      dsimp only
      rw [stable, if_neg filled]
    refine ⟨⟨_, again⟩, iff_of_true again stable, iff_of_true stable fun both => ?_, fun same => ?_⟩
    · cases both.1
    · cases same
  | projectId =>
    obtain ⟨project, rfl⟩ := Outcome.if_ok accepted
    have stable : Text.trim (Text.trimBy isSlash (Text.trim given)) = Text.trimBy isSlash (Text.trim given) :=
      Text.trim_by_none (project_unblank project)
    have again : normalize .projectId (Text.trimBy isSlash (Text.trim given)) =
        .ok (Text.trimBy isSlash (Text.trim given)) := by
      unfold normalize
      dsimp only
      rw [stable, Text.trim_by_stable, if_pos project]
    refine ⟨⟨_, again⟩, iff_of_true again stable, iff_of_true stable fun both => ?_, fun same => ?_⟩
    · cases both.1
    · cases same

theorem padded_address_stable : normalize .serverUrl " https://ci.example.com/ " = .ok "https://ci.example.com".toList ∧
    (∃ again, normalize .serverUrl "https://ci.example.com" = .ok again) ∧
    (normalize .serverUrl "https://ci.example.com" = .ok "https://ci.example.com".toList ↔
      Text.trim "https://ci.example.com" = "https://ci.example.com".toList) ∧
    (Text.trim "https://ci.example.com" = "https://ci.example.com".toList ↔
      ¬ (serverUrl = serverUrl ∧ SlashesBehindBlank " https://ci.example.com/ ")) ∧
    (serverUrl = serverUrl → "https://ci.example.com".toList.getLast? ≠ some '/') :=
  have accepted : normalize .serverUrl " https://ci.example.com/ " = .ok "https://ci.example.com".toList := by decide
  ⟨accepted, normalize_stable_iff accepted⟩

/-- What is left of such an address is accepted again and changed. -/
theorem blank_before_slash_kept : normalize .serverUrl "http://a /" = .ok "http://a ".toList ∧
    normalize .serverUrl "http://a " = .ok "http://a".toList ∧ Text.trim "http://a " ≠ "http://a ".toList := by
  decide

end KnownPreference

/- The file of preferences behaves as a map: after any calls it holds what it held before, changed by those calls that
   are accepted. -/
/-- A call that changes preferences. -/
inductive Change where
  | set (key value : Text)
  | unset (key : Text)

namespace Change

variable {file : PreferenceFile} {p q m : Preferences}

/-- The key that a call names. -/
def named : Change → Text
  | set key _ => key
  | unset key => key

/-- What a call makes of a map. A known preference is kept in its usual form, any other as it is given. -/
def apply (m : Preferences) : Change → Preferences
  | set key value => match KnownPreference.ofName? key with
    | none => Keyed.put key (.string value) m
    | some known => match known.normalize value with
      | .ok usual => Keyed.put key (.string usual) m
      | .error _ => m
  | unset key => Keyed.drop key m

/-- The file that a call leaves. -/
def call (file : PreferenceFile) : Change → Except PreferenceError PreferenceFile
  | set key value => (file.set key (.string value)).map (·.2)
  | unset key => (file.unset key).map (·.2)

/-- The file behind a call; a call that fails leaves the file that was. -/
def attempt (file : PreferenceFile) (c : Change) : PreferenceFile :=
  match c.call file with
  | .ok next => next
  | .error _ => file

/-- What is kept under a key, members of objects in any order. -/
def held (key : Text) (p : Preferences) : Option Json := (Keyed.get? key p).map Json.arranged

/-- Whether the same is kept under every key. -/
def Same (p q : Preferences) : Prop := ∀ key, held key p = held key q

section Stored

theorem load_proper (loaded : file.load = .ok p) : (Json.object p).Proper := by
  cases file with
  | none =>
    cases loaded
    exact .object .nil nofun
  | some content =>
    change Preferences.read content = .ok p at loaded
    unfold Preferences.read at loaded
    split at loaded
    · rename_i read
      cases loaded
      exact Json.read_is_proper read
    · cases loaded
    · split at loaded <;> cases loaded

-- What is written is read again.
theorem written_load (proper : (Json.object p).Proper) :
    ∃ q, PreferenceFile.load (some (Preferences.written p)) = .ok q ∧ Same q p := by
  have read := Json.pretty_read proper
  cases proper with
  | object apart each =>
    obtain ⟨q, same, found⟩ := Json.object_arranged apart
    refine ⟨q, ?_, fun key => ?_⟩
    · rw [PreferenceFile.load, Preferences.read, Preferences.written, read, same]
    · rw [held, found, Option.map_map]
      exact Option.map_congr fun v kept => Json.arranged_twice (each _ (Keyed.mem_of_get? kept))

-- A call on a file that can be read fails only when the value is refused.
theorem set_loaded (loaded : file.load = .ok p) (key : Text) (given : Json) : file.set key given =
    (Preferences.stored key given).map fun v => (v, some (Preferences.written (Keyed.put key v p))) := by
  unfold PreferenceFile.set
  rw [loaded]
  cases Preferences.stored key given <;> rfl

theorem unset_loaded (loaded : file.load = .ok p) (key : Text) : file.unset key =
    .ok (if Keyed.has key p then (true, some (Preferences.written (Keyed.drop key p))) else (false, file)) := by
  unfold PreferenceFile.unset
  rw [loaded]
  simp only [bind, Except.bind]
  split <;> rfl

end Stored

section Step

theorem same_put (same : Same p m) (key : Text) (v : Json) : Same (Keyed.put key v p) (Keyed.put key v m) := by
  intro other
  unfold held
  by_cases own : other = key
  · rw [own, Keyed.get?_put_self, Keyed.get?_put_self]
  · rw [Keyed.get?_put_of_ne own, Keyed.get?_put_of_ne own]
    exact same other

theorem same_drop (same : Same p m) (key : Text) : Same (Keyed.drop key p) (Keyed.drop key m) := by
  intro other
  unfold held
  rw [Keyed.get?_drop, Keyed.get?_drop]
  split
  · rfl
  · exact same other

theorem same_trans (first : Same p q) (second : Same q m) : Same p m := fun key => (first key).trans (second key)

-- A call does to the file what it does to the map.
theorem attempt_step (loaded : file.load = .ok p) (same : Same p m) (c : Change) :
    ∃ q, (attempt file c).load = .ok q ∧ Same q (apply m c) := by
  have proper := load_proper loaded
  cases c with
  | set key value =>
    have put (v : Json) (kept : v.Proper) : ∃ q,
        PreferenceFile.load (some (Preferences.written (Keyed.put key v p))) = .ok q ∧ Same q (Keyed.put key v m) := by
      obtain ⟨q, read, alike⟩ := written_load (Json.put_proper key proper kept)
      exact ⟨q, read, same_trans alike (same_put same key v)⟩
    unfold attempt call apply
    dsimp only
    rw [set_loaded loaded]
    unfold Preferences.stored
    cases KnownPreference.ofName? key with
    | none => exact put _ (.string _)
    | some known =>
      dsimp only
      cases known.normalize value with
      | ok usual => exact put _ (.string _)
      | error e => exact ⟨p, loaded, same⟩
  | unset key =>
    unfold attempt call apply
    dsimp only
    rw [unset_loaded loaded]
    by_cases kept : Keyed.has key p = true
    · obtain ⟨q, read, alike⟩ := written_load (Json.drop_proper key proper)
      rw [if_pos kept]
      exact ⟨q, read, same_trans alike (same_drop same key)⟩
    · have dropped := same_drop same key
      rw [Keyed.drop_absent kept] at dropped
      rw [if_neg kept]
      exact ⟨p, loaded, dropped⟩

theorem apply_other {c : Change} {key : Text} (other : c.named ≠ key) (m : Preferences) :
    held key (apply m c) = held key m := by
  unfold held
  cases c with
  | set name value =>
    have apart : key ≠ name := Ne.symm other
    unfold apply
    dsimp only
    split
    · rw [Keyed.get?_put_of_ne apart]
    · split
      · rw [Keyed.get?_put_of_ne apart]
      · rfl
  | unset name =>
    have apart : key ≠ name := Ne.symm other
    rw [apply, Keyed.get?_drop, if_neg (by simpa using apart)]

end Step

section Run

-- What the calls do to the file they do to the map.
theorem attempts_apply (loaded : file.load = .ok p) (same : Same p m) (changes : List Change) :
    ∃ q, (changes.foldl attempt file).load = .ok q ∧ Same q (changes.foldl apply m) := by
  induction changes generalizing file p m with
  | nil => exact ⟨p, loaded, same⟩
  | cons c rest ih =>
    obtain ⟨q, next, alike⟩ := attempt_step loaded same c
    exact ih next alike

theorem changes_other {changes : List Change} {key : Text} (other : ∀ c ∈ changes, c.named ≠ key) :
    held key (changes.foldl apply m) = held key m := by
  induction changes generalizing m with
  | nil => rfl
  | cons c rest ih =>
    obtain ⟨first, later⟩ := List.forall_mem_cons.1 other
    rw [List.foldl_cons, ih later, apply_other first]

theorem unset_tells (loaded : file.load = .ok p) (key : Text) :
    ∃ next, file.unset key = .ok ((held key p).isSome, next) ∧ (held key p = none → next = file) := by
  have kept : Keyed.has key p = true ↔ (held key p).isSome = true := by
    rw [Keyed.has_eq_true_iff, ← Keyed.get?_isSome_iff, held, Option.isSome_map]
  rw [unset_loaded loaded]
  by_cases there : Keyed.has key p = true
  · rw [if_pos there, kept.1 there]
    refine ⟨_, rfl, fun none => ?_⟩
    rw [none] at kept
    cases kept.1 there
  · rw [if_neg there, Bool.eq_false_iff.2 fun some => there (kept.2 some)]
    exact ⟨file, rfl, fun _ => rfl⟩

theorem set_refused_iff (loaded : file.load = .ok p) (key value : Text) (e : PreferenceError) :
    file.set key (.string value) = .error e ↔
      ∃ known, KnownPreference.ofName? key = some known ∧ known.normalize value = .error e := by
  rw [set_loaded loaded]
  unfold Preferences.stored
  cases KnownPreference.ofName? key with
  | none => simp [Except.map]
  | some known =>
    cases refused : known.normalize value <;> simp [Except.map, refused]

end Run

section Session

open CommandLine

variable {σ α : Type} {around : Surroundings σ} {session : Session σ}

/-- The command of a call. -/
def command : Change → Command σ Unit
  | set key value => setPreference key value
  | unset key => unsetPreference key

/-- The session behind a command, whether it comes to its end or halts. -/
def outcome (around : Surroundings σ) (x : Command σ Unit) (session : Session σ) : Session σ :=
  ((x.run around).run.run session).2

theorem outcome_kept {said : Except PreferenceError α} {next : α → PreferenceFile} {f : α → Command σ Unit}
    (leaves : ∀ a, (outcome around (f a) session).preferences = next a) :
    (outcome around (withPreferences said [] >>= f) session).preferences = match said.map next with
      | .ok file => file
      | .error _ => session.preferences := by
  cases said with
  | ok a => exact leaves a
  | error e => cases e <;> rfl

-- A command leaves the file as the call does, also when it halts.
theorem command_file (c : Change) : (outcome around c.command session).preferences = attempt session.preferences c := by
  cases c with
  | set key value =>
    unfold command setPreference
    dsimp only
    by_cases known : (KnownPreference.ofName? key).isNone = true
    · rw [if_pos known]
      exact outcome_kept fun _ => rfl
    · rw [if_neg known]
      exact outcome_kept fun _ => rfl
  | unset key =>
    unfold command unsetPreference
    refine outcome_kept fun r => ?_
    cases r.1 <;> rfl

theorem attempt_failed {c : Change} {e : PreferenceError} (failed : c.call file = .error e) : attempt file c = file := by
  rw [attempt, failed]

/-- After any calls the file is read as the map that the calls make of what it held, and keys that no call names keep
    their values. Just the values that a known preference refuses make a call fail. A command that fails leaves the
    file of its session, and to forget a key that is missing changes nothing. -/
theorem changes_applied (loaded : file.load = .ok p) (changes : List Change) :
    ∃ q, (changes.foldl attempt file).load = .ok q ∧ Same q (changes.foldl apply p) ∧
      (∀ key, (∀ c ∈ changes, c.named ≠ key) → held key q = held key p) ∧
      (∀ key value e, (changes.foldl attempt file).set key (.string value) = .error e ↔
        ∃ known, KnownPreference.ofName? key = some known ∧ known.normalize value = .error e) ∧
      (∀ key, ∃ next, (changes.foldl attempt file).unset key = .ok ((held key q).isSome, next) ∧
        (held key q = none → next = changes.foldl attempt file)) ∧
      ∀ (c : Change) (e : PreferenceError), c.call (changes.foldl attempt file) = .error e →
        ∀ {σ : Type} (around : Surroundings σ) (session : Session σ), session.preferences = changes.foldl attempt file →
          (outcome around c.command session).preferences = changes.foldl attempt file := by
  obtain ⟨q, read, same⟩ := attempts_apply loaded (fun _ => rfl) changes
  refine ⟨q, read, same, fun key other => (same key).trans (changes_other other), set_refused_iff read,
    unset_tells read, ?_⟩
  intro c e failed σ around session own
  rw [command_file, own, attempt_failed failed]

theorem scope_kept_project_refused :
    ∃ q, ([set "environment_scope" " prod ", set "project_id" "seven", unset "token"].foldl attempt
      (some "\x7b\"owner\": \x7b\"b\": null, \"a\": [12]\x7d, \"project_id\": \"7\"\x7d")).load = .ok q ∧
    Same q [("owner", .object [("b", .null), ("a", .array [.int 12])]), ("project_id", .string "7"),
      ("environment_scope", .string "prod")] := by
  have loaded : PreferenceFile.load (some "\x7b\"owner\": \x7b\"b\": null, \"a\": [12]\x7d, \"project_id\": \"7\"\x7d") =
      .ok [("owner", .object [("b", .null), ("a", .array [.int 12])]), ("project_id", .string "7")] := by cbv
  obtain ⟨q, read, same, -⟩ :=
    changes_applied loaded [set "environment_scope" " prod ", set "project_id" "seven", unset "token"]
  have applied : [set "environment_scope" " prod ", set "project_id" "seven", unset "token"].foldl apply
      [("owner", .object [("b", .null), ("a", .array [.int 12])]), ("project_id", .string "7")] =
      ([("owner", .object [("b", .null), ("a", .array [.int 12])]), ("project_id", .string "7"),
        ("environment_scope", .string "prod")] : Preferences) := by
    have scope : KnownPreference.normalize .environmentScope " prod " = .ok "prod".toList := by decide
    have project : KnownPreference.normalize .projectId "seven" = .error (.invalidProject "seven") := by decide
    have names : KnownPreference.ofName? "environment_scope" = some .environmentScope ∧
        KnownPreference.ofName? "project_id" = some .projectId := by decide
    simp only [List.foldl, apply, scope, project, names]
    rfl
  rw [applied] at same
  exact ⟨q, read, same⟩

end Session

end Change
end PipelineMigration
