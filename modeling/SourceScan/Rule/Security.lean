import SourceScan.Rule.Basic

/-!
# The security rules

Line rules for secrets in the source, SQL built from strings, markup written unescaped, weak
cryptography, path traversal, command execution, plaintext protocols and hazards of Solidity code.
Rules of one group differ in name, message and pattern only, so each group has a constructor.
-/

namespace SourceScan.SecurityRules

open Pattern CharSet

/-! ## Pieces that several patterns share -/

/-- A quotation mark of either kind. -/
def quoteMark : CharSet := ofList ['\x22', '\x27']

/-- A quotation mark. -/
def quote : Pattern := char quoteMark

/-- An ASCII letter or digit. -/
def alnum : CharSet := union (range 'A' 'Z') (union (range 'a' 'z') (range '0' '9'))

/-- An ASCII digit. -/
def asciiDigit : CharSet := range '0' '9'

/-- A colon or an equals sign between blanks, then a quoted text of at least `n` characters. -/
def assignedText (n : Nat) : Pattern :=
  inOrder [blanks, char (ofString ":="), blanks, quote, atLeast n (compl quoteMark), quote]

/-- A plus sign somewhere later on the line. -/
def laterPlus : Pattern := sameLine ++ lit "+"

/-! ## Groups of rules -/

/-- A secret written into the source. -/
def secret (name kind : String) (pattern : Pattern) : Rule where
  name := name
  category := .security .secrets
  severity := .high
  message := "Potential hardcoded " ++ kind ++ " detected"
  description := "Credentials committed to source control can be extracted by anyone with read access"
  suggestion := "Move " ++ kind ++ " to environment variables or secure configuration"
  pattern := pattern
  skipComments := true

/-- A query built from strings. -/
def sql (severity : Severity) (name message : String) (pattern : Pattern) : Rule where
  name := name
  category := .security .sqlInjection
  severity := severity
  message := message
  description := "Queries assembled from strings can let user input change the statement"
  suggestion := "Use parameterized queries or prepared statements"
  pattern := pattern

/-- Content written into a page unescaped. -/
def xss (name message : String) (pattern : Pattern) : Rule where
  name := name
  category := .security .xss
  severity := .medium
  message := message
  description := "Unescaped content written into the page can execute attacker-controlled script"
  suggestion := "Sanitize user input and use safe DOM manipulation methods"
  pattern := pattern

/-- A weak algorithm, and what to use in its place. -/
def crypto (severity : Severity) (name algorithm replacement : String) (pattern : Pattern) :
    Rule where
  name := name
  category := .security .weakCrypto
  severity := severity
  message := "Use of weak " ++ algorithm ++ " algorithm"
  description := algorithm ++ " is not suitable for security-sensitive use"
  suggestion := "Replace " ++ algorithm ++ " with " ++ replacement
  pattern := pattern

/-- A path that leaves its directory. -/
def traversal (name message : String) (pattern : Pattern) : Rule where
  name := name
  category := .security .pathTraversal
  severity := .medium
  message := message
  description := "Relative parent references can escape the intended directory"
  suggestion := "Validate and sanitize file paths, use an allowlist approach"
  pattern := pattern

/-- A call that runs a command. -/
def command (name message description suggestion : String) (pattern : Pattern) : Rule where
  name := name
  category := .security .commandInjection
  severity := .high
  message := message
  description := description
  suggestion := suggestion
  pattern := pattern
  skipComments := true

/-- A protocol that does not encrypt. -/
def transport (name message description suggestion : String) (pattern : Pattern) : Rule where
  name := name
  category := .security .insecureTransport
  severity := .medium
  message := message
  description := description
  suggestion := suggestion
  pattern := pattern
  skipComments := true

/-- The extensions of Solidity files. -/
def solidity : List String := [".sol"]

/-! ## The groups -/

/-- Secrets in the source. -/
def secrets : List Rule := [
  secret "hardcoded_api_key" "api key"
    (inOrder [caseless "api", opt (char (ofString "_-")), caseless "key", assignedText 10]),
  secret "hardcoded_password" "password/secret"
    (oneOf [caseless "secret", caseless "password", caseless "passwd", caseless "pwd"] ++
      assignedText 8),
  secret "hardcoded_auth_token" "auth token"
    (inOrder [opt (caseless "auth" ++ opt (char (ofString "_-"))), caseless "token",
      assignedText 10]),
  secret "private_key" "private key"
    (inOrder [caseless "-----BEGIN", blanks1,
      opt (oneOf [caseless "RSA", caseless "EC", caseless "DSA", caseless "OPENSSH"] ++ blanks1),
      caseless "PRIVATE", blanks1, caseless "KEY-----"]),
  secret "aws_access_key" "AWS access key"
    (lit "AKIA" ++ times 16 (char (union asciiDigit (range 'A' 'Z')))),
  secret "github_token" "GitHub token"
    (inOrder [boundary, lit "ghp_", times 36 (char alnum), boundary]),
  secret "openai_api_key" "OpenAI API key"
    (inOrder [boundary, lit "sk-", times 48 (char alnum), boundary]),
  secret "slack_bot_token" "Slack bot token"
    (inOrder [boundary, lit "xoxb-", atLeast 1 asciiDigit, lit "-", atLeast 1 asciiDigit, lit "-",
      atLeast 1 (union alnum (single '-'))]),
  secret "google_api_key" "Google API key"
    (inOrder [boundary, lit "AIza", times 35 (char (union alnum (ofString "_-")))])]

/-- Queries built from strings. -/
def sqlInjection : List Rule := [
  sql .high "sql_string_concatenation" "String concatenation in SQL query"
    (inOrder [caseless "query", blanks, lit "+", blanks, quote] |||
      inOrder [quote, blanks, lit "+", blanks, word1, blanks, lit "+", blanks, quote]),
  sql .high "dynamic_sql_execute" "Dynamic SQL execution"
    (inOrder [caseless "execute(", laterPlus, sameLine, lit ")"]),
  sql .high "concatenated_select" "Concatenated SELECT statement"
    (inOrder [quote, caseless "SELECT", laterPlus, sameLine, caseless "FROM"]),
  sql .high "concatenated_insert" "Concatenated INSERT statement"
    (inOrder [quote, caseless "INSERT", laterPlus, sameLine, caseless "VALUES"]),
  sql .high "concatenated_update" "Concatenated UPDATE statement"
    (inOrder [quote, caseless "UPDATE", laterPlus, sameLine, caseless "SET"]),
  sql .high "concatenated_delete" "Concatenated DELETE statement"
    (inOrder [quote, caseless "DELETE", laterPlus, sameLine, caseless "FROM"]),
  sql .low "select_star_literal" "Unrestricted SELECT * query literal"
    (inOrder [quote, blanks, caseless "SELECT", blanks1, lit "*", blanks1, caseless "FROM"])]

/-- Content written into a page unescaped. -/
def markup : List Rule := [
  xss "innerhtml_assignment" "Potential XSS via innerHTML"
    (inOrder [lit ".", caseless "inner" ||| caseless "outer", caseless "HTML", blanks, lit "=",
      notAhead (lit "=")]),
  xss "document_write" "Potentially dangerous document.write"
    (inOrder [caseless "document.write", opt (caseless "ln"), blanks, lit "("]),
  xss "eval_call" "Use of eval() function"
    (inOrder [boundary, lit "eval", blanks, lit "("]),
  xss "react_raw_html" "React dangerouslySetInnerHTML usage" (lit "dangerouslySetInnerHTML"),
  xss "vue_raw_html" "Vue.js v-html directive usage"
    (inOrder [boundary, caseless "v-html", blanks, lit "="])]

/-- A call of a hash function, or its name given to a constructor of hashes. -/
def hashUse (name : String) : Pattern :=
  inOrder [boundary, caseless name, blanks, lit "("] |||
    inOrder [caseless "createHash(", blanks, quote, caseless name, quote]

/-- Weak hashes, ciphers and sources of randomness. -/
def weakCrypto : List Rule := [
  crypto .high "md5_hash" "MD5" "SHA-256 or a dedicated password hash (bcrypt, argon2)"
    (hashUse "md5"),
  crypto .medium "sha1_hash" "SHA1" "SHA-256 or stronger" (hashUse "sha1"),
  crypto .high "des_cipher" "DES/3DES" "AES-GCM or ChaCha20-Poly1305"
    (inOrder [boundary,
      oneOf [lit "3DES", lit "DES", lit "TripleDES", lit "DES-EDE" ++ opt (lit "3")], boundary]),
  crypto .high "rc4_cipher" "RC4" "AES-GCM or ChaCha20-Poly1305"
    (inOrder [boundary, caseless "RC4", boundary]),
  crypto .medium "math_random" "Math.random" "crypto.randomBytes or crypto.getRandomValues"
    (inOrder [lit "Math.random", blanks, lit "("]),
  crypto .medium "python_random" "random module" "the secrets module"
    (inOrder [boundary, lit "random.", oneOf [lit "random", lit "randint", lit "choice"], blanks,
      lit "("])]

/-- Paths that leave their directory. -/
def pathTraversal : List Rule := [
  traversal "dot_dot_slash" "Potential path traversal with ../" (lit "../"),
  traversal "traversal_sequence" "Potential path traversal sequence" (lit "..\\" ||| lit "..//"),
  traversal "path_join_traversal" "Path.join with potential traversal"
    (inOrder [caseless "path.join(", run (compl (single ')')), lit "../"])]

/-- Calls that run commands. -/
def commandInjection : List Rule := [
  command "exec_call" "Use of exec() function"
    "Dynamic code or command execution runs whatever reaches it"
    "Avoid dynamic code execution; pass arguments as a list to a safe API"
    (inOrder [atStart ||| char (compl (union (single '.') word)), lit "exec", blanks, lit "("] |||
      inOrder [lit "child_process.exec", opt (lit "Sync"), blanks, lit "("]),
  command "system_call" "System command execution"
    "Shell commands built from variables can be hijacked by crafted input"
    "Use subprocess with an argument list and no shell"
    (inOrder [boundary, lit "system", blanks, lit "("]),
  command "shell_exec_call" "Shell execution"
    "Shell commands built from variables can be hijacked by crafted input"
    "Avoid shell_exec; use escapeshellarg() or a process API without a shell"
    (inOrder [boundary, lit "shell_exec", blanks, lit "("])]

/-- Protocols that do not encrypt. Addresses of the machine itself are no finding. -/
def insecureTransport : List Rule := [
  transport "plain_http" "Insecure HTTP protocol"
    "Plain HTTP traffic can be read and modified in transit"
    "Use HTTPS for external communications"
    (lit "http://" ++ notAhead (oneOf [lit "localhost", lit "127.0.0.1", lit "0.0.0.0"])),
  transport "plain_ftp" "Insecure FTP protocol"
    "FTP sends credentials and data unencrypted"
    "Use SFTP or FTPS"
    (boundary ++ lit "ftp://"),
  transport "plain_telnet" "Insecure Telnet protocol"
    "Telnet sends credentials and data unencrypted"
    "Use SSH"
    (boundary ++ lit "telnet://")]

/-- Hazards of Solidity code. -/
def smartContract : List Rule := [
  { name := "old_solidity_pragma"
    category := .security .smartContract
    severity := .medium
    message := "Old Solidity version detected"
    description := "Solidity before 0.8 lacks checked arithmetic and other safety features"
    suggestion := "Update to Solidity 0.8.x"
    pattern := inOrder [lit "pragma", blanks1, lit "solidity", blanks, opt (lit "^"), lit "0.4"]
    extensions := some solidity },
  { name := "low_level_call"
    category := .security .smartContract
    severity := .high
    message := "Low-level call detected - potential reentrancy risk"
    description := "External calls before state updates allow reentrant execution"
    suggestion := "Use ReentrancyGuard or the checks-effects-interactions pattern"
    pattern := inOrder [lit ".call",
      opt (inOrder [char (single '\x7b'), run (compl (single '\x7d')), char (single '\x7d')]),
      lit "("]
    skipComments := true
    extensions := some solidity }]

end SecurityRules

/-- The catalog of the security analyzer. -/
def Catalog.security : Catalog where
  name := "security"
  rules :=
    SecurityRules.secrets ++ SecurityRules.sqlInjection ++ SecurityRules.markup ++
      SecurityRules.weakCrypto ++ SecurityRules.pathTraversal ++ SecurityRules.commandInjection ++
      SecurityRules.insecureTransport ++ SecurityRules.smartContract

end SourceScan
