/-!
# Categories of findings

A finding belongs to a category of security or of performance. Every category has its own written
name, also across the two kinds.
-/

namespace SourceScan

/-- What a security finding is about. -/
inductive SecurityCategory
  | secrets
  | sqlInjection
  | xss
  | weakCrypto
  | pathTraversal
  | commandInjection
  | insecureTransport
  | smartContract
  | configuration
  deriving Repr, DecidableEq

/-- What a performance finding is about. -/
inductive PerformanceCategory
  | memory
  | cpu
  | io
  | network
  | bundle
  | codeSmell
  deriving Repr, DecidableEq

/-- What a finding is about. -/
inductive Category
  | security (c : SecurityCategory)
  | performance (c : PerformanceCategory)
  deriving Repr, DecidableEq

/-- The security categories in their listed order. -/
def SecurityCategory.all : List SecurityCategory :=
  [secrets, sqlInjection, xss, weakCrypto, pathTraversal, commandInjection, insecureTransport,
    smartContract, configuration]

/-- The written name of a security category. -/
def SecurityCategory.name : SecurityCategory → String
  | secrets => "secrets"
  | sqlInjection => "sql-injection"
  | xss => "xss"
  | weakCrypto => "weak-crypto"
  | pathTraversal => "path-traversal"
  | commandInjection => "command-injection"
  | insecureTransport => "insecure-transport"
  | smartContract => "smart-contract"
  | configuration => "configuration"

/-- The performance categories in their listed order. -/
def PerformanceCategory.all : List PerformanceCategory :=
  [memory, cpu, io, network, bundle, codeSmell]

/-- The written name of a performance category. -/
def PerformanceCategory.name : PerformanceCategory → String
  | memory => "memory"
  | cpu => "cpu"
  | io => "io"
  | network => "network"
  | bundle => "bundle"
  | codeSmell => "code-smell"

namespace Category

/-- The categories, those of security first. -/
def all : List Category :=
  SecurityCategory.all.map security ++ PerformanceCategory.all.map performance

/-- The written name of a category. -/
def name : Category → String
  | security c => c.name
  | performance c => c.name

/-- The category of a written name, if it is one. -/
def ofName? (s : String) : Option Category := all.find? (·.name == s)

theorem ofName?_name (c : Category) : ofName? c.name = some c := by
  rcases c with c | c <;> cases c <;> decide

end Category

end SourceScan
