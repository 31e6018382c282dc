import TreeMerge.Text.Cut

/-!
# Scanning arguments

* `Flag` : an option that a command takes;
* `Reading`, `readArgument` : what one argument is;
* `Scan`, `scan` : the options that were found, the operands, and the rest.

The first argument that looks like an option and is none ends the operands: it and all that is no
option after it are left to others. Two dashes end the options.
-/

namespace TreeMerge

/-- An option: its names, and the name of its value if it takes one. -/
structure Flag where
  long : Text
  short : Option Text := none
  value : Option Text := none
  deriving DecidableEq, Repr

namespace Flag

/-- An option as it is declared. -/
def text (f : Flag) : Text :=
  (match f.short with
    | some s => s ++ ", "
    | none => "") ++ f.long ++
  (match f.value with
    | some v => " <" ++ v ++ ">"
    | none => "")

/-- Whether a word names an option. -/
def isNamed (f : Flag) (word : List UInt16) : Bool :=
  f.long.units == word || f.short.any fun s => s.units == word

/-- The option that a word names. -/
def find? (flags : List Flag) (word : List UInt16) : Option Flag :=
  flags.find? fun f => f.isNamed word

end Flag

/-- What one argument is. -/
inductive Reading where
  /-- The end of the options. -/
  | ending
  /-- An option, whose value, if it takes one, is the next argument. -/
  | option (f : Flag)
  /-- An option with its value. -/
  | valued (f : Flag) (value : List UInt16)
  /-- An option without a value, with the letters of further ones behind it. -/
  | cluster (f : Flag) (more : List UInt16)
  /-- Something that looks like an option and is none. -/
  | stranger
  | operand

/-- An option in a cluster of letters. -/
def readCluster (flags : List Flag) : List UInt16 → Option Reading
  | dash :: c :: m :: more =>
    if dash ≠ '-' || c = '-' then none
    else
      (Flag.find? flags ['-', c]).map fun f =>
        if f.value.isSome then .valued f (m :: more) else .cluster f (m :: more)
  | _ => none

/-- A long option with its value behind an equality sign. -/
def readAssigned (flags : List Flag) (arg : List UInt16) : Option Reading :=
  let name := arg.takeWhile (· != Text.unit '=')
  match Text.after? (Text.units "--") name, arg.dropWhile (· != Text.unit '=') with
  | some (_ :: _), _ :: value =>
    match Flag.find? flags name with
    | some f => if f.value.isSome then some (.valued f value) else none
    | none => none
  | _, _ => none

/-- Whether an argument looks like an option. -/
def looksLikeOption : List UInt16 → Bool
  | dash :: _ :: _ => dash == '-'
  | _ => false

/-- What an argument is. -/
def readArgument (flags : List Flag) (arg : List UInt16) : Reading :=
  if arg = Text.units "--" then .ending
  else if !looksLikeOption arg then .operand
  else
    match Flag.find? flags arg with
    | some f => .option f
    | none => ((readCluster flags arg).or (readAssigned flags arg)).getD .stranger

theorem readCluster_length {flags : List Flag} {arg more : List UInt16} {f : Flag}
    (h : readCluster flags arg = some (.cluster f more)) : more.length + 1 < arg.length := by
  unfold readCluster at h
  split at h
  · split at h
    · simp at h
    · obtain ⟨g, _, hg⟩ := Option.map_eq_some_iff.1 h
      split at hg
      · simp at hg
      · obtain ⟨rfl, rfl⟩ := Reading.cluster.inj hg
        simp
  · simp at h

theorem readAssigned_ne_cluster (flags : List Flag) (arg more : List UInt16) (f : Flag) :
    readAssigned flags arg ≠ some (.cluster f more) := by
  intro h
  simp only [readAssigned] at h
  split at h
  · split at h
    · split at h <;> simp at h
    · simp at h
  · simp at h

/-- A cluster leaves fewer letters than it was read from. -/
theorem readArgument_cluster_length {flags : List Flag} {arg more : List UInt16} {f : Flag}
    (h : readArgument flags arg = .cluster f more) : more.length + 1 < arg.length := by
  unfold readArgument at h
  split at h
  · simp at h
  split at h
  · simp at h
  split at h
  · simp at h
  · cases hc : readCluster flags arg with
    | some r =>
      simp only [hc, Option.some_or, Option.getD_some] at h
      exact readCluster_length (h ▸ hc)
    | none =>
      cases ha : readAssigned flags arg with
      | some r =>
        simp only [hc, ha, Option.none_or, Option.getD_some] at h
        exact absurd (h ▸ ha) (readAssigned_ne_cluster flags arg more f)
      | none => simp [hc, ha] at h

/-- What a scan finds: options with their values, operands, and what is left to others. -/
structure Scan where
  found : List (Flag × Option Text) := []
  operands : List Text := []
  others : List Text := []

namespace Scan

/-- Add an option in front. -/
def note (f : Flag) (value : Option (List UInt16)) (s : Scan) : Scan :=
  { s with found := (f, value.map Text.mk) :: s.found }

/-- Add an argument in front of the operands, or of the others. -/
def push (toOthers : Bool) (args : List (List UInt16)) (s : Scan) : Scan :=
  if toOthers then { s with others := args.map Text.mk ++ s.others }
  else { s with operands := args.map Text.mk ++ s.operands }

/-- Whether an option was found. -/
def has (s : Scan) (long : Text) : Bool :=
  s.found.any fun e => e.1.long == long

/-- The value of an option: the last one counts. -/
def value? (s : Scan) (long : Text) : Option Text :=
  ((s.found.filter fun e => e.1.long == long).getLast?).bind Prod.snd

end Scan

/-- The total length of arguments. -/
def argumentSize : List (List UInt16) → Nat
  | [] => 0
  | arg :: args => arg.length + 1 + argumentSize args

/-- Scan arguments from left to right; `past` says whether a stranger has come. An option that lacks
its value is an error. -/
def scanFrom (flags : List Flag) (past : Bool) (args : List (List UInt16)) : Except Flag Scan :=
  match args with
  | [] => .ok {}
  | arg :: args =>
    match _eq : readArgument flags arg with
    | .ending => .ok (({} : Scan).push past (if past then arg :: args else args))
    | .option f =>
      if f.value.isSome then
        match args with
        | [] => .error f
        | value :: rest => (scanFrom flags past rest).map (.note f (some value))
      else (scanFrom flags past args).map (.note f none)
    | .valued f value => (scanFrom flags past args).map (.note f (some value))
    | .cluster f more => (scanFrom flags past ((Text.unit '-' :: more) :: args)).map (.note f none)
    | .stranger => (scanFrom flags true args).map (.push true [arg])
    | .operand => (scanFrom flags past args).map (.push past [arg])
termination_by argumentSize args
decreasing_by
  all_goals simp only [argumentSize, List.length_cons]
  all_goals try have shorter := readArgument_cluster_length _eq
  all_goals omega

/-- Scan the arguments of a command. -/
def scan (flags : List Flag) (args : List Text) : Except Flag Scan :=
  scanFrom flags false (args.map Text.units)

end TreeMerge
