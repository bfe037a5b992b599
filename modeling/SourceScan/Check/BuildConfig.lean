import SourceScan.Issue.Basic

/-!
# Build configurations

Two findings on the configuration file of a bundler, by the words that occur in it: a webpack
configuration that does not mention optimization, and source maps in production.
-/

namespace SourceScan.BuildConfig

/-- The names of the files that are looked at, in order. -/
def fileNames : List String :=
  ["webpack.config.js", "vite.config.js", "rollup.config.js", "tsconfig.json"]

/-- Whether a text begins with or later holds another. -/
def holds {α : Type} [BEq α] (part : List α) : List α → Bool
  | [] => part.isEmpty
  | c :: rest => part.isPrefixOf (c :: rest) || holds part rest

/-- Whether a text holds a word. -/
def mentions (text : List Char) (word : String) : Bool := holds word.toList text

/-- The finding on a webpack configuration without optimization. -/
def withoutOptimization (name : CodeString) : Issue where
  category := .performance .bundle
  severity := .medium
  file := name
  message := "Webpack optimization not configured"
  description := "Missing optimization settings can impact bundle size"
  suggestion := "Add optimization configuration for production builds"
  rule := "webpack_optimization"
  impact := some "Bundle optimization impact"

/-- The finding on source maps in production. -/
def sourceMaps (name : CodeString) : Issue where
  category := .performance .bundle
  severity := .low
  file := name
  message := "Source maps in production"
  description := "Source maps increase bundle size in production"
  suggestion := "Disable source maps for production builds"
  rule := "production_source_maps"
  impact := some "Bundle size impact"

/-- The findings on a configuration file of a name. -/
def issues (name : CodeString) (text : List Char) : List Issue :=
  (if holds (CodeString.ofString "webpack") name && !mentions text "optimization" then
    [withoutOptimization name] else []) ++
  (if mentions text "source-map" && mentions text "production" then [sourceMaps name] else [])

/-- The findings on the configuration files that are there; `read` gives the text of a file, if there
is one. -/
def issuesIn (read : String → Option (List Char)) : List Issue :=
  fileNames.flatMap fun name =>
    match read name with
    | some text => issues name text
    | none => []

end SourceScan.BuildConfig
