import EventBuckets.Json.Fields
import EventBuckets.Json.Reader
import EventBuckets.State.Document

/-!
# Documents in JSON

`{"nodes": [..]}`, each node with its `tag` and its `value`, and the value an object whose only
member is `value` with a text or `level` with nodes.

* `Document.toJson`   the text;
* `Document.ofJson?`  reads a text back.  A document may open 127 containers inside of each other.
-/

namespace EventBuckets

mutual

/-- a node as a JSON value -/
def Node.json : Node → Json
  | .leaf tag text =>
    .object [(some "tag", .string tag), (some "value", .object [(some "value", .string text)])]
  | .level tag nodes =>
    .object [(some "tag", .string tag),
      (some "value", .object [(some "level", .array (Node.jsonList nodes))])]

def Node.jsonList : List Node → List Json
  | [] => []
  | n :: ns => n.json :: Node.jsonList ns

end

/-- a node, where `room` more containers may be opened -/
def Node.ofJson? : Nat → Json → Option Node
  | 0, _ => none
  | 1, _ => none
  | room + 2, j => do
    let f ← j.fields? ["tag", "value"]
    let tag ← f.required "tag" Json.string?
    let (name, content) ← f.required "value" Json.single?
    if name = "value" then content.string?.map (.leaf tag)
    else if name = "level" then
      match room with
      | 0 => none
      | room + 1 => (content.list? (Node.ofJson? room)).map (.level tag)
    else none

namespace Document

def json (d : Document) : Json := .object [(some "nodes", .array (Node.jsonList d.nodes))]

/-- the JSON text of a document -/
def toJson (d : Document) : String := d.json.render

/-- how many containers a JSON document may open inside of each other -/
def jsonRoom : Nat := 127

def ofJsonValue? (j : Json) : Option Document := do
  let f ← j.fields? ["nodes"]
  let nodes ← f.required "nodes" (Json.list? (Node.ofJson? (jsonRoom - 2)))
  return ⟨nodes⟩

/-- the document of a JSON text -/
def ofJson? (text : String) : Option Document := (Json.parse text).bind ofJsonValue?

end Document

end EventBuckets
