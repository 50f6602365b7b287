import ChartScript.Text.Escaped

/-!
# What can go wrong

One constructor per cause, with the facts a reader of the message needs. The wording is in
`Error.message` alone; `Error.kind` sorts the causes into the six kinds that callers tell apart.
-/

namespace ChartScript

/-- The kinds of error that callers tell apart. -/
inductive ErrorKind where
  | configuration
  | typeMismatch
  | cardinalityMismatch
  | shapeMismatch
  | unknownOption
  | invalidData
deriving DecidableEq, Repr

/-- The words that introduce a kind of error. -/
def ErrorKind.introduction : ErrorKind → String
  | .configuration => "configuration error: "
  | .typeMismatch => "chart type mismatch: "
  | .cardinalityMismatch => "element id count mismatch: "
  | .shapeMismatch => "option "
  | .unknownOption => "unknown option "
  | .invalidData => "invalid data: "

/-- Why an operation was refused. -/
inductive Error where
  /-- A chart without a name. -/
  | emptyIdentifier
  /-- A chart name that no script variable can bear. -/
  | invalidIdentifier (name : String)
  /-- A path that stops at a collection instead of naming one of its entries. -/
  | pathWithoutEntry (path field : String)
  /-- A path segment that should be an unsigned 32-bit number and is not. -/
  | badLabel (path label : String)
  /-- A path that goes on below a field without nested fields. -/
  | pathNotNested (path field : String)
  /-- A field of this kind cannot be opened in the way asked for. -/
  | notNested (field kind : String)
  /-- A list position beyond the limit. -/
  | positionTooLarge (field : String) (position : Nat)
  /-- A loader version without a visible character. -/
  | emptyVersion
  /-- A loader setting that a single-quoted literal cannot hold. -/
  | unsafeSetting (setting value : String)
  /-- Loader settings that are not in the expected JSON form. -/
  | unreadableSettings
  /-- A comparison of charts one of which is a comparison. -/
  | nestedComparison
  /-- A comparison of charts whose type the runtime cannot compare. -/
  | noComparison (type : String)
  /-- A table asked of a chart that compares. -/
  | comparisonAsTable (chart : String)
  /-- A batch without charts. -/
  | emptyBatch
  /-- A chart that no page element is given for. -/
  | missingElementId (chart : String)
  /-- Charts of two types where one type is needed. -/
  | typesDiffer (expected found : String)
  /-- As many element ids as charts are needed. -/
  | elementIdCount (charts ids : Nat)
  /-- A value that the field does not take. -/
  | shapeMismatch (field expected found : String)
  /-- A field that the schema does not declare. -/
  | unknownOption (schema field : String)
  /-- A table without columns. -/
  | noColumns
  /-- A row whose cells are not one per column. -/
  | rowWidth (row cells expected : Nat)
  /-- A row with a number that has no literal. -/
  | rowNotFinite (row : Nat)
  /-- A column that is shorter or longer than the first. -/
  | columnHeight (label : String) (cells expected : Nat)
  /-- Table JSON without a list of columns. -/
  | tableWithoutColumns
  /-- Table text that is not JSON. -/
  | unreadableTable
  /-- Text that describes no batch of charts. -/
  | unreadableBatch
  /-- A batch description of a version that is not known here. -/
  | unsupportedVersion (version : Nat)
  /-- A chart description with both data and a comparison, or with neither. -/
  | dataOrComparison (chart : String)
  /-- A list with more entries than there are labels. -/
  | tooManyEntries (field : String)
  /-- An object in a row that stands for no cell. -/
  | cellWithoutValue
  /-- An array in a row. -/
  | arrayCell
deriving DecidableEq, Repr

namespace Error

/-- The kind of an error. -/
def kind : Error → ErrorKind
  | emptyIdentifier | invalidIdentifier _ | pathWithoutEntry .. | badLabel .. | pathNotNested ..
  | notNested .. | positionTooLarge .. | emptyVersion | unsafeSetting .. | unreadableSettings
  | nestedComparison | noComparison _ | comparisonAsTable _ | emptyBatch
  | missingElementId _ => .configuration
  | typesDiffer .. => .typeMismatch
  | elementIdCount .. => .cardinalityMismatch
  | shapeMismatch .. => .shapeMismatch
  | unknownOption .. => .unknownOption
  | noColumns | rowWidth .. | rowNotFinite _ | columnHeight .. | tableWithoutColumns
  | unreadableTable | unreadableBatch | unsupportedVersion _ | dataOrComparison _
  | tooManyEntries _ | cellWithoutValue | arrayCell => .invalidData

/-- The particulars, without the words that introduce the kind. -/
def detail : Error → String
  | emptyIdentifier => "identifier must not be empty"
  | invalidIdentifier name => "`" ++ name ++ "` is not a valid identifier"
  | pathWithoutEntry path field =>
    "option path `" ++ path ++ "` must address an entry of `" ++ field ++ "`"
  | badLabel path label =>
    "`" ++ label ++ "` in option path `" ++ path ++ "` is not an integer label"
  | pathNotNested path field =>
    "option `" ++ field ++ "` in path `" ++ path ++ "` is not a nested object"
  | notNested field kind => "option `" ++ field ++ "` is " ++ kind ++ ", not a nested object"
  | positionTooLarge field position =>
    "position " ++ position.repr ++ " of `" ++ field ++ "` exceeds 1024"
  | emptyVersion => "loader version must not be empty"
  | unsafeSetting setting value =>
    "loader " ++ setting ++ " `" ++ Text.showEscaped value ++
      "` contains quote, backslash or line break characters"
  | unreadableSettings => "failed to parse output config"
  | nestedComparison => "diff charts cannot compare other diff charts"
  | noComparison type => type ++ " has no diff variant"
  | comparisonAsTable chart =>
    "chart `" ++ chart ++ "` cannot feed a diff chart because it is one"
  | emptyBatch => "a chart batch needs at least one chart"
  | missingElementId chart => "chart `" ++ chart ++ "` has no container element id"
  | typesDiffer expected found => "expected " ++ expected ++ ", found " ++ found
  | elementIdCount charts ids =>
    charts.repr ++ " chart(s) but " ++ ids.repr ++ " element id(s)"
  | shapeMismatch field expected found =>
    "`" ++ field ++ "` expects " ++ expected ++ ", found " ++ found
  | unknownOption schema field => "`" ++ field ++ "` for " ++ schema
  | noColumns => "data table needs at least one column"
  | rowWidth row cells expected =>
    "row " ++ row.repr ++ " has " ++ cells.repr ++ " cells, expected " ++ expected.repr
  | rowNotFinite row => "row " ++ row.repr ++ " contains a non-finite number"
  | columnHeight label cells expected =>
    "column `" ++ label ++ "` has " ++ cells.repr ++ " cells, expected " ++ expected.repr
  | tableWithoutColumns => "DataTable JSON must be an object with a `cols` array"
  | unreadableTable => "failed to parse DataTable json"
  | unreadableBatch => "failed to parse chart batch json payload"
  | unsupportedVersion version => "unsupported chart batch schema version: " ++ version.repr
  | dataOrComparison chart =>
    "chart `" ++ chart ++ "` needs exactly one of `data` or `diff`"
  | tooManyEntries field => "too many entries for `" ++ field ++ "`"
  | cellWithoutValue => "object cells need a `v` value or a `$raw` code"
  | arrayCell => "array cells are not supported"

/-- The whole message. -/
def message (e : Error) : String :=
  e.kind.introduction ++ e.detail

end Error

end ChartScript
