import ChartScript.Proofs.Outcome
import ChartScript.Proofs.Script.Sequence
import ChartScript.Script.Assembly

/-!
# The loading call is read back

The call that loads the chart library holds its version, its packages and its language between
single quotes as they were given. A reader of the call that takes each of them up to the next quote
finds what was written: settings that pass the checks have no character that would end a literal
before its quote or stand for another, and so a text may look like any other part of the call.
-/

namespace ChartScript

/-- What a loading call asks for. -/
structure LoadCall where
  version : String
  packages : List String
  language : Option String
deriving DecidableEq, Repr

namespace LoadReader

open LiteralReader

/-- A character that no literal between single quotes holds as it is. -/
def breaks (c : Char) : Bool :=
  c == '\'' || c == '\\' || c == '\n' || c == '\r'

/-- A text that stands between single quotes as it is. -/
def Plain (text : String) : Prop :=
  ∀ c ∈ text.toList, breaks c = false

instance (text : String) : Decidable (Plain text) :=
  List.decidableBAll _ text.toList

/-- A text between single quotes, up to the next one. -/
def quoted? : List Char → Option (String × List Char)
  | '\'' :: chars =>
    (after? '\'' (chars.dropWhile fun c => !breaks c)).map fun rest =>
      (String.ofList (chars.takeWhile fun c => !breaks c), rest)
  | _ => none

/-- The packages up to the end of their list, which may be empty. -/
def packages? : List Char → Option (List String × List Char)
  | ']' :: rest => some ([], rest)
  | chars => sequence? [','] ']' quoted? chars.length chars

/-- What stands before the version. -/
def callOpening : List Char := "google.charts.load(".toList

/-- What stands before the packages. -/
def packagesOpening : List Char := ", \x7bpackages:[".toList

/-- What stands before the language. -/
def languageOpening : List Char := ", language: ".toList

/-- What stands at the end. -/
def callEnd : List Char := "\x7d);".toList

/-- The language, where one is given. -/
def language? (chars : List Char) : Option (Option String × List Char) :=
  match chars.dropPrefix? languageOpening with
  | some chars => (quoted? chars).map fun (language, rest) => (some language, rest)
  | none => some (none, chars)

/-- A loading call, and what follows it. -/
def call? (chars : List Char) : Option (LoadCall × List Char) := do
  let chars ← chars.dropPrefix? callOpening
  let (version, chars) ← quoted? chars
  let chars ← chars.dropPrefix? packagesOpening
  let (packages, chars) ← packages? chars
  let (language, chars) ← language? chars
  let rest ← chars.dropPrefix? callEnd
  return (⟨version, packages, language⟩, rest)

end LoadReader

/-- Read a text that is a loading call as a whole. -/
def LoadCall.read? (text : String) : Option LoadCall :=
  match LoadReader.call? text.toList with
  | some (call, []) => some call
  | _ => none

namespace LoadReader

open LiteralReader

/-- What begins with a text is what follows the text. -/
theorem dropPrefix?_append (front rest : List Char) :
    (front ++ rest).dropPrefix? front = some rest :=
  List.dropPrefix?_append_of_beq rest (BEq.refl front)

/-- A text between single quotes, before other text. -/
theorem toList_singleQuoted_append (text : String) (rest : List Char) :
    (singleQuoted text).toList ++ rest = '\'' :: (text.toList ++ '\'' :: rest) := by
  rw [singleQuoted, String.toList_append, String.toList_append, List.append_assoc,
    List.append_assoc]
  rfl

/-- A plain text is read as it is. -/
theorem quoted?_append {text : String} (h : Plain text) (rest : List Char) :
    quoted? ((singleQuoted text).toList ++ rest) = some (text, rest) := by
  have hall : ∀ c ∈ text.toList, (!breaks c) = true := by
    intro c hc
    rw [h c hc]
    rfl
  have hstops : StopsFor (fun c => !breaks c) ('\'' :: rest) := stopsFor_cons (by decide) rest
  obtain ⟨htake, hdrop⟩ := span_append hall hstops
  rw [toList_singleQuoted_append, quoted?, htake, hdrop, after?_cons, Option.map_some,
    String.ofList_toList]

/-- The packages as they are written in the call, with the end of their list. -/
def packageChars (packages : List String) (rest : List Char) : List Char :=
  (",".intercalate (packages.map singleQuoted)).toList ++ ']' :: rest

/-- Plain packages are read in order. -/
theorem packages?_append {packages : List String} (h : ∀ package ∈ packages, Plain package)
    (rest : List Char) : packages? (packageChars packages rest) = some (packages, rest) := by
  cases packages with
  | nil => rfl
  | cons package packages =>
    have hchars : packageChars (package :: packages) rest = (singleQuoted package).toList ++
        furtherChars [','] ']' (fun other => (singleQuoted other).toList) packages rest := by
      rw [packageChars, List.map_cons, Text.toList_intercalate_cons, List.flatMap_map,
        List.append_assoc]
      rfl
    obtain ⟨hcount, _⟩ := length_le_furtherChars (List.cons_ne_nil ',' []) ']'
      (fun other => (singleQuoted other).toList) packages rest
    have hmost : packages.length < (packageChars (package :: packages) rest).length := by
      rw [hchars, List.length_append]
      omega
    have hread : sequence? [','] ']' quoted? (packageChars (package :: packages) rest).length
        (packageChars (package :: packages) rest) = some ((package :: packages).map id, rest) := by
      rw [hchars] at hmost ⊢
      exact sequence?_append (fun _ => rfl)
        (fun other hother _ _ => quoted?_append (h other hother) _) hmost rest
    rw [List.map_id] at hread
    rw [packages?]
    · exact hread
    · intro tail htail
      rw [hchars, toList_singleQuoted_append] at htail
      exact absurd (List.cons.inj htail).1 (by decide)

/-- The language as it is written in the call, where there is one. -/
def languageChars : Option String → List Char
  | some language => languageOpening ++ (singleQuoted language).toList
  | none => []

/-- The language is read where there is one. -/
theorem language?_append {language : Option String} (h : ∀ text ∈ language, Plain text)
    (rest : List Char) :
    language? (languageChars language ++ (callEnd ++ rest)) = some (language, callEnd ++ rest) := by
  cases language with
  | none => rfl
  | some text =>
    rw [languageChars, List.append_assoc, language?, dropPrefix?_append]
    simp only [quoted?_append (h text rfl), Option.map_some]

/-- The parts of a loading call, in order. -/
theorem toList_load_append (settings : LoaderSettings) (packages : List String)
    (rest : List Char) :
    (Statement.load settings packages).text.toList ++ rest =
      callOpening ++ ((singleQuoted settings.version).toList ++ (packagesOpening ++
        packageChars packages (languageChars settings.language ++ (callEnd ++ rest)))) := by
  have hpackages : packagesOpening = ", ".toList ++ "\x7bpackages:[".toList := rfl
  have hend : callEnd = "\x7d".toList ++ ");".toList := rfl
  have hclose (chars : List Char) : ']' :: chars = "]".toList ++ chars := rfl
  obtain ⟨version, language⟩ := settings
  unfold Statement.text loadArgument callOpening packageChars
  -- not `rw`, which would go on to compare the literals on both sides character by character
  rewrite [hpackages, hend, hclose]
  cases language with
  | none =>
    unfold languageChars
    simp only [String.toList_append, List.append_assoc]
    rfl
  | some text =>
    unfold languageChars languageOpening
    simp only [String.toList_append, List.append_assoc]

/-- A loading call of plain texts is read as what it was written for, whatever follows it. -/
theorem call?_load_append {settings : LoaderSettings} (hversion : Plain settings.version)
    (hlanguage : ∀ text ∈ settings.language, Plain text) {packages : List String}
    (hpackages : ∀ package ∈ packages, Plain package) (rest : List Char) :
    call? ((Statement.load settings packages).text.toList ++ rest) =
      some (⟨settings.version, packages, settings.language⟩, rest) := by
  rw [toList_load_append, call?, dropPrefix?_append]
  simp only [Option.bind_eq_bind, Option.bind_some, quoted?_append hversion, dropPrefix?_append,
    packages?_append hpackages, language?_append hlanguage]
  rfl

end LoadReader

namespace LoaderSettings

open LoadReader

/-- A setting that is not refused is plain. -/
theorem plain_of_settingFault {setting value : String} (h : settingFault setting value = none) :
    Plain value := by
  intro c hc
  have hany : ¬ value.toList.any unsafeChar = true := by
    intro hany
    rw [settingFault, if_pos hany] at h
    cases h
  have hsafe : unsafeChar c = false := by
    rw [Bool.eq_false_iff]
    intro hunsafe
    exact hany (List.any_eq_true.mpr ⟨c, hc, hunsafe⟩)
  simp only [unsafeChar, Bool.or_eq_false_iff] at hsafe
  obtain ⟨⟨⟨⟨hquote, _⟩, hbackslash⟩, hfeed⟩, hreturn⟩ := hsafe
  simp only [breaks, hquote, hbackslash, hfeed, hreturn, Bool.or_false]

/-- Settings that pass the checks are plain. -/
theorem plain_of_fault? {settings : LoaderSettings} (h : settings.fault? = none) :
    Plain settings.version ∧ ∀ text ∈ settings.language, Plain text := by
  unfold fault? at h
  split at h
  · cases h
  · obtain ⟨hversion, hlanguage⟩ := Option.or_eq_none_iff.mp h
    refine ⟨plain_of_settingFault hversion, fun text htext => ?_⟩
    exact plain_of_settingFault (Option.bind_eq_none_iff.mp hlanguage text htext)

/-- Settings that pass the checks are those of a loader, and the loading call that is written for
them and for plain packages is read as the version, the packages in order, and the language if there
is one, with nothing left over. -/
theorem load_read_back {settings : LoaderSettings} (h : settings.fault? = none)
    {packages : List String} (hpackages : ∀ package ∈ packages, Plain package) :
    Loader.ofSettings settings = .ok ⟨settings, h⟩ ∧
      LoadCall.read? (Statement.load settings packages).text =
        some ⟨settings.version, packages, settings.language⟩ := by
  obtain ⟨hversion, hlanguage⟩ := plain_of_fault? h
  constructor
  · unfold Loader.ofSettings
    split
    · rename_i fault hfault
      rw [h] at hfault
      cases hfault
    · rfl
  · have hcall := call?_load_append hversion hlanguage hpackages []
    rw [List.append_nil] at hcall
    rw [LoadCall.read?, hcall]

/-- Settings and packages that look like other parts of the call, with an empty language, are read
back. -/
theorem load_read_back_lookalike :
    fault? ⟨"51, \x7bpackages:[], language: \x7d);", some ""⟩ = none ∧
      (∀ package ∈ ["]", ", language: ", ""], Plain package) ∧
        LoadCall.read? (Statement.load ⟨"51, \x7bpackages:[], language: \x7d);", some ""⟩
          ["]", ", language: ", ""]).text =
            some ⟨"51, \x7bpackages:[], language: \x7d);", ["]", ", language: ", ""], some ""⟩ := by
  have hfault : fault? ⟨"51, \x7bpackages:[], language: \x7d);", some ""⟩ = none := by
    decide +kernel
  have hpackages : ∀ package ∈ ["]", ", language: ", ""], Plain package := by
    decide +kernel
  exact ⟨hfault, hpackages, (load_read_back hfault hpackages).2⟩

end LoaderSettings

namespace Batch

open LoadReader

variable {b : Batch} {loader : Loader}

/-- The packages of charts are plain. -/
theorem plain_of_mem_packages {package : String} (h : package ∈ b.packages) : Plain package := by
  rw [packages, List.mem_eraseDups] at h
  obtain ⟨chart, _, rfl⟩ := List.mem_map.mp h
  cases chart.type <;> decide

/-- Every script begins with a loading call, and that is read as the version and the language of the
loader and the packages of the charts. -/
theorem call?_script {script : String} (h : b.script loader = .ok script) :
    ∃ rest, call? script.toList =
      some (⟨loader.settings.version, b.packages, loader.settings.language⟩, rest) := by
  obtain ⟨statements, hstatements, rfl⟩ := map_eq_ok.mp h
  obtain ⟨start, hstart, hstatements⟩ := bind_eq_ok.mp hstatements
  obtain ⟨finish, _, hstatements⟩ := bind_eq_ok.mp hstatements
  obtain ⟨_, _, hstart⟩ := bind_eq_ok.mp hstart
  obtain ⟨ids, _, hstart⟩ := bind_eq_ok.mp hstart
  obtain ⟨starts, _, hstart⟩ := bind_eq_ok.mp hstart
  cases hstart
  cases hstatements
  obtain ⟨hversion, hlanguage⟩ := LoaderSettings.plain_of_fault? loader.faultless
  rw [Statement.script, List.cons_append, List.map_cons, String.join_cons, String.toList_append]
  exact ⟨_, call?_load_append hversion hlanguage (fun _ => plain_of_mem_packages) _⟩

end Batch

end ChartScript
