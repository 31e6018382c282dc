import TreeMerge.Json.Basic
import TreeMerge.Text.Path

/-!
# Languages

A language is named by the key under which a parser offers it.

* `Language.ofExtension?` : the language of a file extension;
* `Language.detect?` : the language of a file, which may also be given, or fall back to a default;
* `AskedLanguage` : a language as somebody asks for it.
-/

namespace TreeMerge

namespace Language

/-- The extensions that are known, with their languages. -/
def table : List (Text × Text) := [
  (".ts", "TypeScript"), (".mts", "TypeScript"), (".cts", "TypeScript"),
  (".tsx", "Tsx"),
  (".js", "JavaScript"), (".jsx", "JavaScript"), (".mjs", "JavaScript"), (".cjs", "JavaScript"),
  (".html", "Html"), (".htm", "Html"),
  (".css", "Css"),
  (".py", "Python"),
  (".go", "Go"),
  (".rs", "Rust"),
  (".java", "Java"),
  (".kt", "Kotlin"), (".kts", "Kotlin")]

/-- The lower-case form of a unit, as far as it matters for the extensions: apart from the ASCII
capitals, only the Kelvin sign has a lower-case form that occurs in one. -/
def lower (u : UInt16) : UInt16 :=
  if u = 0x212A then 'k' else if 'A' ≤ u && u ≤ 'Z' then u + 32 else u

/-- The language of an extension, whose case does not matter. -/
def ofExtension? (extension : Text) : Option Text :=
  table.lookup ⟨extension.units.map lower⟩

/-- The language of a file: the one asked for, else that of its extension, else the fallback. -/
def detect? (path : Text) (asked fallback : Option Text) : Option Text :=
  asked <|> ofExtension? (Path.extension path) <|> fallback

end Language

/-- A language as somebody asks for it, which need not be by a key. -/
structure AskedLanguage where
  /-- The key to look it up by; missing when what was asked for has no text. -/
  key? : Option Text
  /-- What was asked for, as a log shows it. -/
  asked : Json

namespace AskedLanguage

/-- A language that is asked for by its key. -/
def ofKey (key : Text) : AskedLanguage :=
  ⟨some key, .str key⟩

/-- A value asks for the language whose key is its bare text. -/
def ofJson (j : Json) : AskedLanguage :=
  ⟨j.plainText?, j⟩

instance : Coe Text AskedLanguage where
  coe := ofKey

/-- A text asks for itself. -/
theorem ofJson_str (key : Text) : ofJson (.str key) = ofKey key := by
  simp [ofJson, ofKey, Json.plainText?]

end AskedLanguage

end TreeMerge
