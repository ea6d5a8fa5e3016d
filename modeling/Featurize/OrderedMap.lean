import Std.Data.ExtTreeMap

/-!
Maps ordered by their keys. Two of them are equal exactly when they hold the
same entries, so the order in which entries were put in never shows.
-/

namespace Featurize

/-- A map ordered by integer ids. -/
abbrev IdMap (Entry : Type) := Std.ExtTreeMap Int64 Entry compare

/-- A map ordered by names, byte by byte. -/
abbrev NameMap (Entry : Type) := Std.ExtTreeMap String Entry compare

end Featurize
