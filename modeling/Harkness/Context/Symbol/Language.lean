import Harkness.Context.Path
import Mathlib

/-! # The language of a file

A file's name decides its language, else the interpreter its first line names, else what its first
bytes look like.
-/

namespace Harkness.Context

/-- A stable language identifier: lowercase letters, digits and underscores. -/
structure Language where
  value : String
  wellFormed : (value ≠ "" && value.utf8ByteSize ≤ 64 && value.toList.all fun character =>
    character.isLower || character.isDigit || character = '_') = true
deriving DecidableEq

namespace Language

/-- Takes an identifier that is well formed. -/
def new (value : String) : Option Language :=
  if wellFormed : _ then some ⟨value, wellFormed⟩ else none

@[simp] theorem new_value (language : Language) : new language.value = some language :=
  dif_pos language.wellFormed

/-- A language that may be missing is read from its text. -/
@[simp] theorem bind_new (language : Option Language) :
    (language.map (·.value)).bind new = language := by
  cases language <;> simp

@[simp] theorem all_new (language : Option Language) :
    ((language.map (·.value)).all fun text => (new text).isSome) = true := by
  cases language <;> simp

end Language

/-- The bytes of a text of ASCII characters. -/
def ascii (text : String) : List (Fin 256) :=
  text.toList.map fun character => Fin.ofNat 256 character.toNat

/-- What stands behind the last separator of some bytes, or all of them. -/
def afterLast (separator : Fin 256) (bytes : List (Fin 256)) : List (Fin 256) :=
  (bytes.reverse.takeWhile (· ≠ separator)).reverse

def toAsciiLowercase (byte : Fin 256) : Fin 256 :=
  if 65 ≤ byte ∧ byte ≤ 90 then byte + 32 else byte

def isAsciiWhitespace (byte : Fin 256) : Bool :=
  byte = 32 || byte = 9 || byte = 10 || byte = 12 || byte = 13

/-- The languages of whole file names. -/
def nameLanguages : List (String × String) :=
  [("cargo.toml", "toml"), ("pyproject.toml", "toml"), ("dockerfile", "dockerfile"),
    ("makefile", "make"), ("gnumakefile", "make"), ("cmakelists.txt", "cmake")]

/-- The languages of extensions. -/
def extensionLanguages : List (String × String) :=
  [("rs", "rust"), ("toml", "toml"), ("md", "markdown"), ("markdown", "markdown"),
    ("mdown", "markdown"), ("py", "python"), ("pyi", "python"), ("js", "javascript"),
    ("mjs", "javascript"), ("cjs", "javascript"), ("ts", "typescript"), ("mts", "typescript"),
    ("cts", "typescript"), ("tsx", "tsx"), ("jsx", "jsx"), ("json", "json"), ("jsonc", "json"),
    ("yaml", "yaml"), ("yml", "yaml"), ("sh", "shell"), ("bash", "shell"), ("zsh", "shell"),
    ("fish", "shell"), ("c", "c"), ("h", "c"), ("cc", "cpp"), ("cpp", "cpp"), ("cxx", "cpp"),
    ("hpp", "cpp"), ("hxx", "cpp"), ("cs", "csharp"), ("go", "go"), ("java", "java"),
    ("kt", "kotlin"), ("kts", "kotlin"), ("rb", "ruby"), ("php", "php"), ("swift", "swift"),
    ("sql", "sql"), ("html", "html"), ("htm", "html"), ("css", "css"), ("scss", "css"),
    ("sass", "css"), ("qml", "qml")]

/-- The entry of a table under a spelling. -/
def lookupAscii (table : List (String × String)) (bytes : List (Fin 256)) : Option String :=
  (table.find? fun entry => ascii entry.1 = bytes).map Prod.snd

def extensionLanguage (path : RepoPath) : Option String :=
  let lower := (afterLast separator path).map toAsciiLowercase
  match lookupAscii nameLanguages lower with
  | some language => some language
  | none =>
    -- A name without a dot is a name, not an extension.
    if 46 ∈ lower then lookupAscii extensionLanguages (afterLast 46 lower) else none

/-- The language of the first word of a directive that names an interpreter. -/
def interpreterLanguage : List (List (Fin 256)) → Option String
  | [] => none
  | word :: words =>
    let name := afterLast separator word
    if name.head? = some 45 then interpreterLanguage words
    else if name = ascii "env" then interpreterLanguage words
    else if name = ascii "python" || name = ascii "python3" then some "python"
    else if name = ascii "node" || name = ascii "nodejs" then some "javascript"
    else if name = ascii "bash" || name = ascii "sh" || name = ascii "zsh" || name = ascii "fish" then
      some "shell"
    else if name = ascii "ruby" then some "ruby"
    else if (ascii "python").isPrefixOf name then some "python"
    else none

def shebangLanguage (content : List (Fin 256)) : Option String :=
  match (ascii "#!").isPrefixOf? (content.takeWhile (· ≠ 10)) with
  | none => none
  | some directive =>
    interpreterLanguage ((directive.splitOnP isAsciiWhitespace).filter (· ≠ []))

def heuristicLanguage (content : List (Fin 256)) : Option String :=
  let head := content.take 4096
  if (ascii "# ").isPrefixOf head || head.tails.any (ascii "\n# ").isPrefixOf then some "markdown"
  else if (head.splitOn 10).any fun line =>
      ["fn ", "pub fn ", "impl ", "pub mod "].any fun start =>
        (ascii start).isPrefixOf (line.dropWhile isAsciiWhitespace) then
    some "rust"
  else if head.tails.any (ascii "[package]\n").isPrefixOf ||
      head.tails.any (ascii "[dependencies]\n").isPrefixOf then
    some "toml"
  else none

/-- The language of a file: by its name, then its first line, then its first bytes. -/
def detectLanguage (path : RepoPath) (content : List (Fin 256)) : Option Language :=
  let head := content.take 4096
  match extensionLanguage path with
  | some language => Language.new language
  | none =>
    match shebangLanguage head with
    | some language => Language.new language
    | none => (heuristicLanguage head).bind Language.new

end Harkness.Context
