import FlatTree.Delay

/-!
The settings of a store: a delay per written byte and a bound on the symbolic links that one look-up
follows. `Settings.ofNamed` builds them from named numbers and refuses unknown names and numbers
below the bounds. Settings made directly are not checked.
-/

namespace FlatTree

structure Settings where
  /-- Seconds that a write takes for each byte. -/
  writeDelay : Delay := some (.real (.nearest false 1 1000000))
  /-- Symbolic links followed in one look-up; without a number there is no bound. -/
  hopLimit : Quantity := some (.whole 40)
  deriving DecidableEq, Inhabited

/-- Why settings are refused. -/
inductive SettingsFault where
  /-- Names that are no settings, in the order given. -/
  | unexpected (names : List String)
  | delayMissing
  | delayNegative (delay : Scalar)
  | hopLimitBelowOne (limit : Scalar)
  deriving DecidableEq

namespace Settings

/-- The names of the settings. -/
def names : List String := ["write_delay", "max_symlink_hops"]

/-- The last value given for a name, or a default if the name is not given. -/
def valueOf (name : String) (otherwise : Quantity) (named : List (String × Quantity)) : Quantity :=
  (named.reverse.find? (·.1 == name)).elim otherwise Prod.snd

/-- Settings from named numbers. A number that compares with nothing passes both checks. -/
def ofNamed (named : List (String × Quantity)) : Except SettingsFault Settings :=
  let unexpected := (named.map Prod.fst).eraseDups.filter (!names.contains ·)
  let delay := valueOf "write_delay" ({} : Settings).writeDelay named
  let limit := valueOf "max_symlink_hops" ({} : Settings).hopLimit named
  if unexpected ≠ [] then .error (.unexpected unexpected)
  else
    match delay with
    | none => .error .delayMissing
    | some seconds =>
        if seconds.lt (.whole 0) then .error (.delayNegative seconds)
        else
          match limit with
          | none => .ok ⟨some seconds, none⟩
          | some hops =>
              if hops.lt (.whole 1) then .error (.hopLimitBelowOne hops)
              else .ok ⟨some seconds, some hops⟩

/-- Settings with the given numbers, unchecked, or the first name that is no setting. -/
def ofNumbers (named : List (String × Quantity)) : Except String Settings :=
  match (named.map Prod.fst).find? (!names.contains ·) with
  | some name => .error name
  | none =>
      .ok {
        writeDelay := valueOf "write_delay" ({} : Settings).writeDelay named
        hopLimit := valueOf "max_symlink_hops" ({} : Settings).hopLimit named }

/-- Whether settings have the values of the standard ones. -/
def isStandard (settings : Settings) : Bool :=
  Quantity.agree settings.writeDelay ({} : Settings).writeDelay &&
    Quantity.agree settings.hopLimit ({} : Settings).hopLimit

/-- The number of hops at which a look-up gives up, if there is one: the least natural number that
is not below the limit. -/
def hopBound (settings : Settings) : Option Nat :=
  settings.hopLimit.bind (·.value.ceilNat?)

/-- The printed form. -/
def display (settings : Settings) : String :=
  "MemFSConfig(write_delay=" ++ Quantity.text settings.writeDelay ++
    ", max_symlink_hops=" ++ Quantity.text settings.hopLimit ++ ")"

end Settings

/-- The failure that a refusal of settings is reported as. -/
def SettingsFault.failure : SettingsFault → Failure
  | .unexpected names =>
      .ofMessage .value ("Unexpected arguments for memory fs: " ++
        String.ofList (Text.quotedList (names.map String.toList)))
  | .delayMissing => .ofMessage .type "write_delay must be a number"
  | .delayNegative delay => .ofMessage .value ("write_delay must be >= 0, got " ++ delay.text)
  | .hopLimitBelowOne limit =>
      .ofMessage .value ("max_symlink_hops must be >= 1 or None, got " ++ limit.text)

end FlatTree
