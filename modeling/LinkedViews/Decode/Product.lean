import LinkedViews.Decode.Link
import LinkedViews.Product

/-!
Products as JSON.

A product names its document by any spelling of it; it is written with the canonical uri.
-/

namespace LinkedViews.Product

def shape : Shape := ⟨"ProductWire", 7⟩

def decode : Json → Decode.Result Product
  | .obj members => do
    let continues ← Decode.field? members "append" Decode.boolean
    let content ← Decode.field? members "content" Decode.string
    let language ← Decode.field? members "language" Decode.string
    let name ← Decode.field? members "name" Decode.string
    let forward ← Decode.field? members "rangeMap" (Decode.sequence Link.decode)
    let reverse ← Decode.field? members "rangeMapRev" (Decode.sequence Link.decode)
    let uri ← Decode.field? members "uri" Decode.string
    let uri ← Decode.require "uri" uri
    let name ← Decode.require "name" name
    let language ← Decode.require "language" language
    return ⟨.parse uri, name, language, content.getD "", continues.getD false, forward.getD [],
      reverse.getD []⟩
  | .arr items => do
    let uri ← Decode.element shape items 0 Decode.string
    let name ← Decode.element shape items 1 Decode.string
    let language ← Decode.element shape items 2 Decode.string
    let content ← Decode.elementOr "" items 3 Decode.string
    let continues ← Decode.elementOr false items 4 Decode.boolean
    let forward ← Decode.elementOr [] items 5 (Decode.sequence Link.decode)
    let reverse ← Decode.elementOr [] items 6 (Decode.sequence Link.decode)
    Decode.close shape items
    return ⟨.parse uri, name, language, content, continues, forward, reverse⟩
  | v => .error (.wrongType v (.record shape))

def toJson (p : Product) : Json := .obj [
  ("append", .bool p.continues),
  ("content", .str p.content),
  ("language", .str p.language),
  ("name", .str p.name),
  ("rangeMap", .arr (p.forward.map Link.toJson)),
  ("rangeMapRev", .arr (p.reverse.map Link.toJson)),
  ("uri", .str p.source.uri)]

end LinkedViews.Product
