import WindbgMcp.Library.Fallible
import WindbgMcp.Library.Masking
import WindbgMcp.SkControl.Protocol

/-! The provider commands a startup policy admits (`skpolicy.rs`), and what is launched for a
request (`livesrc.rs`, `skdispatch.rs`): a command is split, its program made canonical,
rendered, split again for the placeholders and rendered for the spawn, which splits it once
more. -/
namespace WindbgMcp.SkPolicy
open WindbgMcp.Library
open Text (isWhitespace replaceAll splitAtFirst)
open WindbgMcp.SkControl (TargetIdentity)

/-- The loop of `split_command`: what of the line is left, the word so far, and whether it
is inside quotes. -/
def splitWords : List Char → List Char → Bool → List (List Char)
  | [], current, _ => if current = [] then [] else [current]
  | c :: rest, current, quoted =>
    if c = '"' then splitWords rest current !quoted
    else if isWhitespace c && !quoted then
      if current = [] then splitWords rest [] quoted
      else current :: splitWords rest [] quoted
    else splitWords rest (current ++ [c]) quoted

def splitCommand (command : List Char) : List (List Char) := splitWords command [] false

def renderWord (word : List Char) : List Char :=
  if word.any isWhitespace then '"' :: word ++ ['"'] else word

def renderTransport : List (List Char) → List Char
  | [] => []
  | [word] => renderWord word
  | word :: words => renderWord word ++ ' ' :: renderTransport words

def lowercase (word : List Char) : List Char := word.map Char.toLower

/-- `h3provider::BUILTIN`. -/
def builtin : List Char := "builtin:h3probe".toList

def IsWord (word : List Char) : Prop := word ≠ [] ∧ '"' ∉ word

/-- The file system, as far as a policy asks it.  A canonical path is absolute, and no path
has a quote in it. -/
structure Files where
  isAbsolute : List Char → Bool
  isFile : List Char → Bool
  canonicalize : List Char → Option (List Char)
  isWord_canonicalize : ∀ path out, canonicalize path = some out → IsWord out
  isAbsolute_canonicalize : ∀ path out, canonicalize path = some out → isAbsolute out = true
  builtin_relative : isAbsolute builtin = false

/-- What a startup policy admits of transports: commands by their words, the program's path
canonical and in lower case, and built-in providers by name. -/
structure Policy where
  transportCommands : List (List (List Char))
  builtinTransports : List (List Char)

def canonicalFile (files : Files) (path : List Char) (what : String) :
    Except String (List Char) :=
  match files.canonicalize path with
  | none => .error ("canonicalizing " ++ what ++ " " ++ String.ofList path)
  | some path =>
    if files.isFile path then .ok path
    else .error (what ++ " " ++ String.ofList path ++ " is not a file")

def canonicalTransport (files : Files) (name : String) (command : List Char) :
    Except String (List (List Char) × List (List Char)) :=
  match splitCommand command with
  | [] => .error (name ++ " is empty")
  | program :: arguments =>
    if files.isAbsolute program then do
      let path ← canonicalFile files program name
      .ok (lowercase path :: arguments, path :: arguments)
    else .error (name ++ " must name an absolute executable fixed by startup policy")

def Policy.authorizeTransport (policy : Policy) (files : Files) (name : String)
    (command : List Char) : Except String (List Char) :=
  if command = builtin then
    if builtin ∈ policy.builtinTransports then .ok command
    else .error (name ++ " selects a built-in provider not admitted by startup policy")
  else do
    let (normalized, launch) ← canonicalTransport files name command
    if normalized ∈ policy.transportCommands then .ok (renderTransport launch)
    else .error (name ++ " is not an exact transport command admitted by startup policy")

inductive Placeholder
  | vp
  | partitionId
  | cr3
  | vmwpPid
  | partitionHandle
  deriving DecidableEq, Repr

namespace Placeholder

def name : Placeholder → String
  | .vp => "vp"
  | .partitionId => "partition_id"
  | .cr3 => "cr3"
  | .vmwpPid => "vmwp_pid"
  | .partitionHandle => "partition_handle"

def text (placeholder : Placeholder) : { pattern : List Char // pattern ≠ [] } :=
  ⟨'{' :: placeholder.name.toList ++ ['}'], List.cons_ne_nil _ _⟩

def number (value : Nat) : Placeholder → List Char
  | .vp => (toString value).toList
  | .vmwpPid => (toString value).toList
  | _ => (Text.hex value).toList

end Placeholder

def substitute (placeholder : Placeholder) (value : Nat) (word : List Char) : List Char :=
  replaceAll placeholder.text (placeholder.number value) word

def mentions (placeholder : Placeholder) (word : List Char) : Bool :=
  (splitAtFirst placeholder.text.1 word).isSome

def controlFlag : List Char := "--sk-h3-control".toList
def memoryFlag : List Char := "--sk-h3-memory".toList

/-- `h3provider::builtin_command`: this executable in one of its provider roles. -/
def builtinCommand (exe : List Char) (target : TargetIdentity) (cr3Known : Bool)
    (memoryHandle : Option (Nat × Nat)) (allowTransitionCr3 : Bool) :
    Except String (List Char) :=
  match memoryHandle with
  | none =>
    .ok (renderTransport
      ([exe, controlFlag, "--vm-id".toList, target.vmId.toList, "--partition-id".toList,
          (Text.hex target.partitionId).toList, "--vp".toList, (toString target.vp).toList] ++
        (if cr3Known then ["--expected-cr3".toList, (Text.hex target.expectedCr3).toList]
        else []) ++
        if allowTransitionCr3 then ["--allow-transition-cr3".toList] else []))
  | some (vmwpPid, partitionHandle) =>
    if vmwpPid = 0 ∨ partitionHandle = 0 then
      .error "the built-in memory provider needs worker-discovered vmwp coordinates"
    else
      .ok (renderTransport
        ([exe, memoryFlag, "--vmwp-pid".toList, (toString vmwpPid).toList,
            "--partition-handle".toList, (Text.hex partitionHandle).toList,
            "--partition-id".toList, (Text.hex target.partitionId).toList, "--vp".toList,
            (toString target.vp).toList, "--writes".toList] ++
          if cr3Known && !allowTransitionCr3 then
            ["--expected-cr3".toList, (Text.hex target.expectedCr3).toList]
          else []))

def expandCr3 (target : TargetIdentity) (cr3Known : Bool) (arguments : List (List Char)) :
    Except String (List (List Char)) :=
  if cr3Known then .ok (arguments.map (substitute .cr3 target.expectedCr3))
  else if arguments.any (mentions .cr3) then
    .error ("the provider command uses \x7bcr3\x7d, but no CR3 assertion was supplied; the " ++
      "provider must discover CR3 and report it in its hello")
  else .ok arguments

def expandMemory (memoryHandle : Option (Nat × Nat)) (arguments : List (List Char)) :
    Except String (List (List Char)) :=
  if arguments.any fun argument => mentions .vmwpPid argument || mentions .partitionHandle argument
  then
    match memoryHandle with
    | none =>
      .error ("only the live-memory command may use \x7bvmwp_pid\x7d or " ++
        "\x7bpartition_handle\x7d, and the profile must support worker discovery")
    | some (vmwpPid, partitionHandle) =>
      if partitionHandle = 0 then
        .error "worker discovery did not produce a partition handle for the memory provider"
      else
        .ok (arguments.map fun argument =>
          substitute .partitionHandle partitionHandle (substitute .vmwpPid vmwpPid argument))
  else .ok arguments

def expandTargetCommand (exe command : List Char) (target : TargetIdentity) (cr3Known : Bool)
    (memoryHandle : Option (Nat × Nat)) (allowTransitionCr3 : Bool) :
    Except String (List Char) :=
  if command = builtin then builtinCommand exe target cr3Known memoryHandle allowTransitionCr3
  else
    match splitCommand command with
    | [] => .error "the provider command line is empty"
    | program :: arguments => do
      let arguments := arguments.map fun argument =>
        substitute .partitionId target.partitionId (substitute .vp target.vp argument)
      let arguments ← expandCr3 target cr3Known arguments
      let arguments ← expandMemory memoryHandle arguments
      .ok (renderTransport (program :: arguments))

section Words
variable {word rest current : List Char}

theorem splitWords_plain (hquote : '"' ∉ word) (hplain : ∀ c ∈ word, isWhitespace c = false) :
    splitWords (word ++ rest) current false = splitWords rest (current ++ word) false := by
  induction word generalizing current with
  | nil => rw [List.nil_append, List.append_nil]
  | cons c word ih =>
    rw [List.mem_cons, not_or] at hquote
    rw [List.forall_mem_cons] at hplain
    rw [List.cons_append, splitWords, if_neg (Ne.symm hquote.1), hplain.1, Bool.false_and,
      if_neg Bool.false_ne_true, ih hquote.2 hplain.2, List.append_assoc, List.singleton_append]

theorem splitWords_quoted (hquote : '"' ∉ word) :
    splitWords (word ++ rest) current true = splitWords rest (current ++ word) true := by
  induction word generalizing current with
  | nil => rw [List.nil_append, List.append_nil]
  | cons c word ih =>
    rw [List.mem_cons, not_or] at hquote
    rw [List.cons_append, splitWords, if_neg (Ne.symm hquote.1), Bool.not_true, Bool.and_false,
      if_neg Bool.false_ne_true, ih hquote.2, List.append_assoc, List.singleton_append]

theorem splitWords_renderWord (hquote : '"' ∉ word) :
    splitWords (renderWord word ++ rest) current false =
      splitWords rest (current ++ word) false := by
  unfold renderWord
  split
  · rw [List.cons_append, List.cons_append, List.append_assoc, splitWords, if_pos rfl,
      Bool.not_false, splitWords_quoted hquote, List.singleton_append, splitWords, if_pos rfl,
      Bool.not_true]
  · rename_i hblank
    apply splitWords_plain hquote
    intro c hc
    rw [Bool.not_eq_true, List.any_eq_false] at hblank
    simpa using hblank c hc

theorem splitCommand_renderTransport {words : List (List Char)} (h : ∀ word ∈ words, IsWord word) :
    splitCommand (renderTransport words) = words := by
  unfold splitCommand
  fun_induction renderTransport words with
  | case1 => rfl
  | case2 word =>
    obtain ⟨hsome, hquote⟩ := h word List.mem_cons_self
    have hread := @splitWords_renderWord word [] [] hquote
    rw [List.append_nil, List.nil_append] at hread
    rw [hread, splitWords, if_neg hsome]
  | case3 word words _ ih =>
    obtain ⟨hsome, hquote⟩ := h word List.mem_cons_self
    have hblank : isWhitespace ' ' = true := by decide
    rw [splitWords_renderWord hquote, List.nil_append, splitWords, if_neg (by decide), hblank,
      Bool.not_false, Bool.and_self, if_pos rfl, if_neg hsome,
      ih fun later hlater => h later (List.mem_cons_of_mem word hlater)]

theorem isWord_of_mem_splitWords {command : List Char} {quoted : Bool}
    (hcurrent : '"' ∉ current) :
    ∀ word ∈ splitWords command current quoted, IsWord word := by
  induction command generalizing current quoted with
  | nil =>
    intro word hword
    rw [splitWords] at hword
    split at hword
    · cases hword
    · rename_i hsome
      rw [List.mem_singleton.mp hword]
      exact ⟨hsome, hcurrent⟩
  | cons c command ih =>
    have hnil : '"' ∉ ([] : List Char) := List.not_mem_nil
    intro word hword
    rw [splitWords] at hword
    split at hword
    · exact ih hcurrent word hword
    · rename_i hc
      split at hword
      · split at hword
        · exact ih hnil word hword
        · rename_i hsome
          cases hword with
          | head => exact ⟨hsome, hcurrent⟩
          | tail _ hword => exact ih hnil word hword
      · apply ih _ word hword
        rw [List.mem_append, List.mem_singleton, not_or]
        exact ⟨hcurrent, Ne.symm hc⟩

theorem isWord_of_mem_splitCommand {command : List Char} :
    ∀ word ∈ splitCommand command, IsWord word :=
  isWord_of_mem_splitWords List.not_mem_nil

end Words

section Placeholders

theorem quote_not_mem_toDigits {base : Nat} (hbase : 1 < base) (hsmall : base ≤ 16) (value : Nat) :
    '"' ∉ Nat.toDigits base value := by
  have hdigits : ∀ digit < 16, '"' ≠ Nat.digitChar digit := by decide
  induction value using Nat.strong_induction_on with
  | _ value ih =>
    by_cases hlt : value < base
    · rw [Nat.toDigits_of_lt_base hlt, List.mem_singleton]
      exact hdigits value (by omega)
    · rw [Nat.toDigits_of_base_le hbase (by omega), List.mem_append, List.mem_singleton, not_or]
      have hmod := Nat.mod_lt value (by omega : 0 < base)
      exact ⟨ih (value / base) (Nat.div_lt_self (by omega) hbase), hdigits _ (by omega)⟩

theorem isWord_decimal (value : Nat) : IsWord (toString value).toList := by
  have hdigits : (toString value).toList = Nat.toDigits 10 value := by simp
  rw [hdigits]
  refine ⟨?_, quote_not_mem_toDigits (by decide) (by decide) value⟩
  exact List.ne_nil_of_length_pos Nat.length_toDigits_pos

theorem isWord_hex (value : Nat) : IsWord (Text.hex value).toList := by
  unfold Text.hex Text.hexDigits
  rw [String.toList_append, @String.toList_ofList (Nat.toDigits 16 value)]
  refine ⟨List.append_ne_nil_of_left_ne_nil (by decide) _, ?_⟩
  rw [List.mem_append, not_or]
  exact ⟨by decide, quote_not_mem_toDigits (by decide) (by decide) value⟩

theorem isWord_number (placeholder : Placeholder) (value : Nat) :
    IsWord (placeholder.number value) := by
  cases placeholder with
  | vp => exact isWord_decimal value
  | vmwpPid => exact isWord_decimal value
  | partitionId => exact isWord_hex value
  | cr3 => exact isWord_hex value
  | partitionHandle => exact isWord_hex value

theorem quote_not_mem_replaceAll {pattern : { pattern : List Char // pattern ≠ [] }}
    {put word : List Char} (hput : '"' ∉ put) (hword : '"' ∉ word) :
    '"' ∉ replaceAll pattern put word := by
  fun_induction replaceAll pattern put word with
  | case1 word before behind hsplit ih =>
    rw [← Text.splitAtFirst_append hsplit, List.mem_append, List.mem_append, not_or,
      not_or] at hword
    rw [List.mem_append, List.mem_append, not_or, not_or]
    exact ⟨hword.1.1, hput, ih hword.2⟩
  | case2 word => exact hword

theorem isWord_substitute (placeholder : Placeholder) (value : Nat) {word : List Char}
    (h : IsWord word) : IsWord (substitute placeholder value word) := by
  have hnumber := isWord_number placeholder value
  refine ⟨?_, quote_not_mem_replaceAll hnumber.2 h.2⟩
  unfold substitute
  rw [replaceAll]
  split
  · exact List.append_ne_nil_of_right_ne_nil _ (List.append_ne_nil_of_left_ne_nil hnumber.1 _)
  · exact h.1

def substituteAll (substitutions : List (Placeholder × Nat)) (word : List Char) : List Char :=
  substitutions.foldl (fun word given => substitute given.1 given.2 word) word

theorem isWord_substituteAll (substitutions : List (Placeholder × Nat)) {word : List Char}
    (h : IsWord word) : IsWord (substituteAll substitutions word) := by
  induction substitutions generalizing word with
  | nil => exact h
  | cons given substitutions ih => exact ih (isWord_substitute given.1 given.2 h)

theorem substituteAll_append (substitutions more : List (Placeholder × Nat)) (word : List Char) :
    substituteAll (substitutions ++ more) word =
      substituteAll more (substituteAll substitutions word) :=
  List.foldl_append

def relaunched (program : List Char) (substitutions : List (Placeholder × Nat)) :
    List (List Char) → List (List Char)
  | [] => []
  | _ :: arguments => program :: arguments.map (substituteAll substitutions)

theorem splitCommand_relaunched {program : List Char} (hprogram : IsWord program)
    (substitutions : List (Placeholder × Nat)) (command : List Char) :
    splitCommand (renderTransport (relaunched program substitutions (splitCommand command))) =
      relaunched program substitutions (splitCommand command) := by
  apply splitCommand_renderTransport
  have hwords := @isWord_of_mem_splitCommand command
  generalize splitCommand command = words at hwords
  cases words with
  | nil => exact fun word hword => absurd hword List.not_mem_nil
  | cons first arguments =>
    intro word hword
    cases hword with
    | head => exact hprogram
    | tail _ hword =>
      obtain ⟨argument, hargument, rfl⟩ := List.mem_map.mp hword
      exact isWord_substituteAll substitutions
        (hwords argument (List.mem_cons_of_mem first hargument))

theorem expandCr3_eq {target : TargetIdentity} {cr3Known : Bool}
    {arguments expanded : List (List Char)}
    (h : expandCr3 target cr3Known arguments = .ok expanded) :
    ∃ substitutions, expanded = arguments.map (substituteAll substitutions) := by
  unfold expandCr3 at h
  split at h
  · cases h
    exact ⟨[(.cr3, target.expectedCr3)], rfl⟩
  · split at h
    · cases h
    · cases h
      exact ⟨[], (List.map_id _).symm⟩

theorem expandMemory_eq {memoryHandle : Option (Nat × Nat)} {arguments expanded : List (List Char)}
    (h : expandMemory memoryHandle arguments = .ok expanded) :
    ∃ substitutions, expanded = arguments.map (substituteAll substitutions) := by
  unfold expandMemory at h
  split at h
  · cases memoryHandle with
    | none => cases h
    | some handle =>
      dsimp only at h
      split at h
      · cases h
      · cases h
        exact ⟨[(.vmwpPid, handle.1), (.partitionHandle, handle.2)], rfl⟩
  · cases h
    exact ⟨[], (List.map_id _).symm⟩

end Placeholders

section Launch
variable {files : Files}

theorem canonicalFile_ok {path out : List Char} {what : String}
    (h : canonicalFile files path what = .ok out) :
    IsWord out ∧ files.isAbsolute out = true := by
  unfold canonicalFile at h
  split at h
  · cases h
  · rename_i canonical hcanonical
    split at h
    · cases h
      exact ⟨files.isWord_canonicalize path _ hcanonical,
        files.isAbsolute_canonicalize path _ hcanonical⟩
    · cases h

/-- What is authorized is a rendering of an admitted command, the program's path in its
canonical case. -/
theorem authorizeTransport_ok {policy : Policy} {name : String} {command authorized : List Char}
    (hother : command ≠ builtin)
    (h : policy.authorizeTransport files name command = .ok authorized) :
    ∃ program arguments, lowercase program :: arguments ∈ policy.transportCommands ∧
      authorized = renderTransport (program :: arguments) ∧ files.isAbsolute program = true ∧
        ∀ word ∈ program :: arguments, IsWord word := by
  unfold Policy.authorizeTransport at h
  rw [if_neg hother] at h
  obtain ⟨⟨normalized, launch⟩, hcanonical, hadmitted⟩ := bind_eq_ok.mp h
  unfold canonicalTransport at hcanonical
  have hwords := @isWord_of_mem_splitCommand command
  generalize splitCommand command = words at hcanonical hwords
  cases words with
  | nil => cases hcanonical
  | cons first arguments =>
    dsimp only at hcanonical
    split at hcanonical
    · obtain ⟨program, hfile, hlaunch⟩ := bind_eq_ok.mp hcanonical
      cases hlaunch
      obtain ⟨hprogram, habsolute⟩ := canonicalFile_ok hfile
      dsimp only at hadmitted
      split at hadmitted
      · rename_i hmem
        cases hadmitted
        refine ⟨program, arguments, hmem, rfl, habsolute, ?_⟩
        intro word hword
        cases hword with
        | head => exact hprogram
        | tail _ hword => exact hwords word (List.mem_cons_of_mem first hword)
      · cases hadmitted
    · cases hcanonical

/-- What a worker spawns for an authorized command: its words, with the placeholders of the
arguments replaced. -/
theorem expandTargetCommand_ok {exe program expanded : List Char} {arguments : List (List Char)}
    {target : TargetIdentity} {cr3Known : Bool} {memoryHandle : Option (Nat × Nat)}
    {allowTransitionCr3 : Bool} (habsolute : files.isAbsolute program = true)
    (hwords : ∀ word ∈ program :: arguments, IsWord word)
    (h : expandTargetCommand exe (renderTransport (program :: arguments)) target cr3Known
      memoryHandle allowTransitionCr3 = .ok expanded) :
    ∃ substitutions,
      splitCommand expanded = program :: arguments.map (substituteAll substitutions) := by
  have hsplit := splitCommand_renderTransport hwords
  have hother : renderTransport (program :: arguments) ≠ builtin := by
    intro hname
    have hone : splitCommand builtin = [builtin] := by decide +kernel
    rw [hname, hone] at hsplit
    have hrelative := files.builtin_relative
    rw [(List.cons.inj hsplit).1, habsolute] at hrelative
    cases hrelative
  unfold expandTargetCommand at h
  rw [if_neg hother, hsplit] at h
  obtain ⟨known, hknown, h⟩ := bind_eq_ok.mp h
  obtain ⟨given, hgiven, h⟩ := bind_eq_ok.mp h
  cases h
  obtain ⟨first, rfl⟩ := expandCr3_eq hknown
  obtain ⟨second, rfl⟩ := expandMemory_eq hgiven
  let all := (.vp, target.vp) :: (.partitionId, target.partitionId) :: (first ++ second)
  refine ⟨all, ?_⟩
  have hall : ((arguments.map fun argument => substitute .partitionId target.partitionId
      (substitute .vp target.vp argument)).map (substituteAll first)).map
        (substituteAll second) = arguments.map (substituteAll all) := by
    rw [List.map_map, List.map_map]
    apply List.map_congr_left
    intro argument _
    exact (substituteAll_append first second _).symm
  rw [hall]
  apply splitCommand_renderTransport
  intro word hword
  cases hword with
  | head => exact hwords program List.mem_cons_self
  | tail _ hword =>
    obtain ⟨argument, hargument, rfl⟩ := List.mem_map.mp hword
    exact isWord_substituteAll all (hwords argument (List.mem_cons_of_mem program hargument))

/-- A command's words survive a rendering with another program and the placeholders replaced,
and what is launched for a request that names no built-in provider is an admitted command
but for the case of the program's path and the placeholders. -/
theorem launched_as_admitted (files : Files) :
    (∀ command program substitutions, IsWord program →
      splitCommand (renderTransport (relaunched program substitutions (splitCommand command))) =
        relaunched program substitutions (splitCommand command)) ∧
    ∀ (policy : Policy) name command authorized exe target cr3Known memoryHandle
      allowTransitionCr3 expanded, command ≠ builtin →
      policy.authorizeTransport files name command = .ok authorized →
      expandTargetCommand exe authorized target cr3Known memoryHandle allowTransitionCr3 =
        .ok expanded →
      ∃ program arguments substitutions,
        lowercase program :: arguments ∈ policy.transportCommands ∧
          splitCommand expanded = program :: arguments.map (substituteAll substitutions) := by
  constructor
  · intro command program substitutions hprogram
    exact splitCommand_relaunched hprogram substitutions command
  · intro policy name command authorized exe target cr3Known memoryHandle allow expanded hother
      hauthorized hexpanded
    obtain ⟨program, arguments, hadmitted, rfl, habsolute, hwords⟩ :=
      authorizeTransport_ok hother hauthorized
    obtain ⟨substitutions, hspawned⟩ := expandTargetCommand_ok habsolute hwords hexpanded
    exact ⟨program, arguments, substitutions, hadmitted, hspawned⟩

/-- One tool on a disk, and its canonical path. -/
def exampleFiles : Files where
  isAbsolute path := path.head? = some '\\' || path.take 3 = "C:\\".toList
  isFile _ := true
  canonicalize path :=
    if path = "C:\\Tools\\sk.exe".toList then some "\\\\?\\C:\\Tools\\sk.exe".toList else none
  isWord_canonicalize path out h := by
    split at h
    · cases h
      exact ⟨by decide, by decide⟩
    · cases h
  isAbsolute_canonicalize path out h := by
    split at h
    · cases h
      decide
    · cases h
  builtin_relative := by decide

def examplePolicy : Policy where
  transportCommands :=
    [["\\\\?\\c:\\tools\\sk.exe".toList, "live guest".toList, "--vp=\x7bvp\x7d".toList]]
  builtinTransports := [builtin]

def exampleTarget : TargetIdentity where
  vmId := "51749a1f-f939-44f5-b251-1251ef5b64a3"
  partitionId := 3
  vp := 0
  vtl := 1
  expectedCr3 := 0x1000

/-- A command with a quoted argument and a placeholder, and what is spawned for it. -/
theorem launched_example :
    splitCommand (renderTransport
        (relaunched "a b".toList [] (splitCommand "sk \"live guest\" x".toList))) =
        relaunched "a b".toList [] (splitCommand "sk \"live guest\" x".toList) ∧
      ∃ program arguments substitutions,
        lowercase program :: arguments ∈ examplePolicy.transportCommands ∧
          splitCommand "\\\\?\\C:\\Tools\\sk.exe \"live guest\" --vp=0".toList =
            program :: arguments.map (substituteAll substitutions) :=
  ⟨(launched_as_admitted exampleFiles).1 _ _ [] ⟨by decide, by decide⟩,
    (launched_as_admitted exampleFiles).2 examplePolicy "control_transport"
      "C:\\Tools\\sk.exe \"live guest\" --vp=\x7bvp\x7d".toList
      "\\\\?\\C:\\Tools\\sk.exe \"live guest\" --vp=\x7bvp\x7d".toList [] exampleTarget false none
      false _ (by decide +kernel) (by decide +kernel) (by decide +kernel)⟩

/-- A built-in provider is accepted by its name, and what is launched for it is this
executable: no admitted command. -/
theorem builtin_not_admitted :
    ¬∀ (policy : Policy) name command authorized exe target cr3Known memoryHandle
      allowTransitionCr3 expanded,
      policy.authorizeTransport exampleFiles name command = .ok authorized →
      expandTargetCommand exe authorized target cr3Known memoryHandle allowTransitionCr3 =
        .ok expanded →
      ∃ program arguments substitutions,
        lowercase program :: arguments ∈ policy.transportCommands ∧
          splitCommand expanded = program :: arguments.map (substituteAll substitutions) := by
  intro h
  obtain ⟨program, arguments, substitutions, hadmitted, -⟩ :=
    h ⟨[], [builtin]⟩ "control_transport" builtin builtin "wmcp.exe".toList exampleTarget false
      none false _ rfl rfl
  cases hadmitted

end Launch

end WindbgMcp.SkPolicy
