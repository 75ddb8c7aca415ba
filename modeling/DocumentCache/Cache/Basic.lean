import DocumentCache.Cache.Counters
import DocumentCache.Cache.ParentIndex
import DocumentCache.Format.Payload
import DocumentCache.Journal.KeyValue
import DocumentCache.Model.Settings

/-!
# The document cache

The cache keeps one row per document in a key-value engine and nothing in memory
but counters and the index of collections.  It works with any engine, any index and
any codec.
-/

namespace DocumentCache

/-- Documents under their keys, in key order. -/
abbrev DocumentMap : Type := OrderedMap DocumentKey Document

structure Cache (σ ι : Type) where
  engine : σ
  index : ι
  codec : Codec
  settings : Settings
  counters : Counters

namespace Cache

/-- A cache over an engine and an index of one's own. -/
def create (engine : σ) (index : ι) (codec : Codec) (settings : Settings) :
    Except Error (Cache σ ι) :=
  match settings.validate with
  | .error error => .error error
  | .ok () => .ok ⟨engine, index, codec, settings, .zero⟩

/-- Count a failure that is due to a corrupt row. -/
def countCorrupt {α : Type} (counters : Counters) (result : Except Error α) : Counters :=
  match result with
  | .error error => if error.isCorruption then counters.recordCorrupt else counters
  | .ok _ => counters

end Cache

end DocumentCache
