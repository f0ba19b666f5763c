import MiniMl.Proofs.PlainFiles
import MiniMl.Proofs.SettingsFile
import MiniMl.Settings.Standard
/-!
# What a library for settings is documented to do

The statements about loading hold for every library that does what is documented
(`SettingsLibrary.Documented`): it takes its sources in their order, checks the entries that decide,
and lists the problems in the order of the fields; names are compared without regard to letter case;
plain lines of a file assign what they say, and a reference concerns the name that it has. The
standard library is one of them (`SettingsLibrary.standard_documented`).
-/

namespace MiniMl

/-- What is documented about names, files and entries. -/
structure SettingsReader.Documented (reader : SettingsReader) : Prop where
  fold_ascii : ∀ name : String, (∀ c ∈ name.toList, c.toNat < 128) →
    reader.fold name = LetterCase.ascii.lowerText name
  assignments_textOf : ∀ lines : List SettingsFile.Line, (∀ line ∈ lines, line.Plain) →
    reader.assignments (SettingsFile.textOf lines) = lines.filterMap SettingsFile.Line.assignment?
  onlyMentioned : reader.OnlyMentioned
  substitute_of_not_mem : ∀ (value : String → String → String) (text : String),
    '$' ∉ text.toList → reader.substitute value text = text
  toInt_int : ∀ n, reader.toInt (.int n) = .ok n
  toBool_bool : ∀ b, reader.toBool (.bool b) = .ok b

/-- No override is for the library itself. -/
def SettingsLibrary.Ordinary (library : SettingsLibrary) (sources : Sources) : Prop :=
  ∀ entry ∈ sources.overrides, library.reserved entry.1 = false

/-- What is documented about a library, as far as it is not configured by overrides. -/
structure SettingsLibrary.Documented (library : SettingsLibrary) : Prop
    extends library.toSettingsReader.Documented where
  construct_eq : ∀ sources, library.Ordinary sources →
    library.construct sources = library.toSettingsReader.load sources

theorem SettingsReader.standard_documented : SettingsReader.standard.Documented where
  fold_ascii _ _ := rfl
  assignments_textOf _ h := SettingsFile.assignments_textOf h
  onlyMentioned h := SettingsFile.substitute_congr h
  substitute_of_not_mem value _ h := SettingsFile.substitute_of_not_mem value h
  toInt_int _ := rfl
  toBool_bool _ := rfl

theorem SettingsLibrary.standard_documented : SettingsLibrary.standard.Documented where
  toDocumented := SettingsReader.standard_documented
  construct_eq _ _ := rfl

end MiniMl
