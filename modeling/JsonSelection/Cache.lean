import JsonSelection.Schema.Build
import JsonSelection.Shape.Hash

/-!
# Schema caches

A cache keeps the schemas that were built for an operation and a shape. It is a
value: a lookup gives the schema together with the cache after it. Builds are
numbered, so that one and the same built schema can be told from another one
that equals it (`CacheEntry.serial`).

## What this module delivers

- `SchemaCache.keyOf`: the key of a lookup, made of the method in upper case,
  the path and a hash.
- `SchemaCache.get`: a lookup, which builds a schema if none is kept.
- `SchemaCache.clear`: a cache that keeps nothing but counts its builds on.

The declared body of a request takes part in a build and not in the key; what
follows from that is the subject of `Proofs/Cache/Mutation`. Nothing is ever
evicted, so a cache grows with the keys that it is asked for.
-/

set_option autoImplicit false

namespace JsonSelection

/-- What a schema is kept under: the method in upper case, the path, and a hash.
The path is taken as it is written, so two writings of one path are two keys. -/
structure CacheKey where
  method : String
  path : String
  hash : String
deriving DecidableEq, Repr

/-- A kept schema with the number of its build. Two entries never have one
number, so the number tells which schema a lookup has given. -/
structure CacheEntry where
  key : CacheKey
  schema : Schema
  serial : Nat

/-- Kept schemas, oldest first, and the number of builds so far. The limits are
those under which all schemas of the cache are built. -/
structure SchemaCache where
  limits : Limits := {}
  entries : List CacheEntry := []
  built : Nat := 0

/-- The answer to a lookup. The shape hash is that of the data, also where a
hash given by the caller has taken its place in the key. -/
structure CacheLookup where
  schema : Schema
  serial : Nat
  shapeHash : String
  fromCache : Bool

namespace SchemaCache

/-- The number of kept schemas. -/
def size (cache : SchemaCache) : Nat :=
  cache.entries.length

/-- Whether nothing is kept. A cache that has built schemas and forgotten them
is empty again. -/
def isEmpty (cache : SchemaCache) : Bool :=
  cache.entries.isEmpty

/-- The entry of a key. An entry is only added under a key that has none, so it
does not matter which of several would be found. -/
def find? (cache : SchemaCache) (key : CacheKey) : Option CacheEntry :=
  cache.entries.find? fun entry => entry.key == key

/-- The key of a lookup. A hash given by the caller takes the place of the shape
hash of the data. -/
def keyOf (cache : SchemaCache) (data : Json) (method path : String) (override : Option String) :
    CacheKey :=
  ⟨Text.upper method, path, override.getD (Shape.hash cache.limits data)⟩

/-- Looks a schema up and builds it if it is not kept. A build that fails leaves
the cache as it was. -/
def get (cache : SchemaCache) (data : Json) (method path : String) (body : Option Json)
    (override : Option String) : Except BuildError (CacheLookup × SchemaCache) :=
  -- reported in any case, also where a given hash takes its place in the key
  let shapeHash := Shape.hash cache.limits data
  let key := cache.keyOf data method path override
  match cache.find? key with
  | some entry => .ok (⟨entry.schema, entry.serial, shapeHash, true⟩, cache)
  | none =>
      (Schema.build cache.limits data method path body).map fun schema =>
        (⟨schema, cache.built, shapeHash, false⟩,
          { cache with
            entries := cache.entries ++ [⟨key, schema, cache.built⟩]
            built := cache.built + 1 })

/-- Forgets all kept schemas; the number of builds goes on. -/
def clear (cache : SchemaCache) : SchemaCache :=
  { cache with entries := [] }

end SchemaCache

end JsonSelection
