import DocumentCache.Bytes
import DocumentCache.Model.Fault

/-!
# Key-value engines

What the document cache asks of the engine beneath it: lookups, writes and ordered
scans over byte-string keys, each call in one step, any of which may fail.  A
conditional put shows the value that stands there to a check and writes only if
the check accepts it.
-/

namespace DocumentCache

/-- How a conditional put went. -/
structure ConditionalPut where
  /-- What the check was shown, if it was asked at all. -/
  seen : Option (Option Bytes)
  result : Except Error Unit

class KeyValueEngine (σ : Type) where
  get : σ → Bytes → Except Error (Option Bytes)
  put : σ → Bytes → Bytes → Except Error Unit × σ
  putIf : σ → Bytes → Bytes → (Option Bytes → Except Error Unit) → ConditionalPut × σ
  delete : σ → Bytes → Except Error Unit × σ
  /-- The entries whose keys begin with the given bytes, in key order. -/
  startingWith : σ → Bytes → Except Error (List (Bytes × Bytes))
  /-- The entries whose keys lie between two bounds, both included, in key order. -/
  between : σ → Bytes → Bytes → Except Error (List (Bytes × Bytes))

end DocumentCache
