import EventBuckets.Proofs.CborText
import EventBuckets.Proofs.JsonText
import EventBuckets.State.Json

/-!
# Documents in both encodings

A document is read back from its JSON text and from its CBOR bytes, if its levels are not too deep
for the containers that a reader opens: each level opens three, a leaf two.

* `Node.depth`                  how deep the levels of a node nest;
* `Node.lengths`                how long the texts and levels in it are;
* `Node.ofJson?_json`           a node is read back from its JSON value;
* `Cbor.takes_node`             and from its bytes;
* `Document.read_what_is_written`
                                so is a document.
-/

namespace EventBuckets

namespace Node

mutual

/-- how deep levels nest in a node -/
def depth : Node → Nat
  | leaf .. => 0
  | level _ nodes => depthList nodes + 1

def depthList : List Node → Nat
  | [] => 0
  | n :: ns => max n.depth (depthList ns)

end

mutual

/-- the lengths of the texts and of the levels in a node -/
def lengths : Node → List Nat
  | leaf tag text => [tag.utf8ByteSize, text.utf8ByteSize]
  | level tag nodes => tag.utf8ByteSize :: nodes.length :: lengthsList nodes

def lengthsList : List Node → List Nat
  | [] => []
  | n :: ns => n.lengths ++ lengthsList ns

end

variable {nodes : List Node} {n : Node} {room : Nat}

theorem induct {motive : Node → Prop} (leaf : ∀ tag text, motive (.leaf tag text))
    (level : ∀ tag nodes, (∀ n ∈ nodes, motive n) → motive (.level tag nodes)) (n : Node) :
    motive n :=
  @Node.rec motive (fun nodes => ∀ n ∈ nodes, motive n) leaf level nofun
    (fun _ _ hn hns => List.forall_mem_cons.mpr ⟨hn, hns⟩) n

theorem depth_le_depthList (h : n ∈ nodes) : n.depth ≤ depthList nodes := by
  induction nodes with
  | nil => cases h
  | cons m ms ih =>
    rcases List.mem_cons.mp h with rfl | h
    · exact le_max_left _ _
    · exact (ih h).trans (le_max_right _ _)

theorem lengthsList_eq (nodes : List Node) : lengthsList nodes = nodes.flatMap lengths := by
  induction nodes with
  | nil => rfl
  | cons n ns ih => rw [lengthsList, ih, List.flatMap_cons]

/-! ## in JSON -/

theorem jsonList_eq (nodes : List Node) : jsonList nodes = nodes.map json := by
  induction nodes with
  | nil => rfl
  | cons n ns ih => rw [jsonList, ih, List.map_cons]

theorem numberless_json (n : Node) : n.json.Numberless := by
  induction n using induct with
  | leaf tag text =>
    have hvalue : (Json.object [(some "value", .string text)]).Numberless :=
      .object (by simp) (by simp [Json.Numberless.string])
    exact .object (by simp) (by simp [Json.Numberless.string, hvalue])
  | level tag nodes ih =>
    have hnodes : (Json.array (jsonList nodes)).Numberless := by
      rw [jsonList_eq]
      exact .array (List.forall_mem_map.mpr ih)
    have hvalue : (Json.object [(some "level", .array (jsonList nodes))]).Numberless :=
      .object (by simp) (by simp [hnodes])
    exact .object (by simp) (by simp [Json.Numberless.string, hvalue])

theorem list?_jsonList {read : Json → Option Node} (h : ∀ n ∈ nodes, read n.json = some n) :
    (Json.array (jsonList nodes)).list? read = some nodes := by
  show (jsonList nodes).mapM read = some nodes
  rw [jsonList_eq]
  induction nodes with
  | nil => rfl
  | cons n ns ih =>
    rw [List.map_cons, List.mapM_cons, h n List.mem_cons_self,
      ih fun m hm => h m (List.mem_cons_of_mem _ hm)]
    rfl

/-- a node is read back, where enough containers may be opened -/
theorem ofJson?_json (n : Node) (room : Nat) (h : 3 * n.depth + 2 ≤ room) :
    ofJson? room n.json = some n := by
  induction n using induct generalizing room with
  | leaf tag text =>
    obtain ⟨room, rfl⟩ : ∃ k, room = k + 2 := ⟨room - 2, by omega⟩
    simp [ofJson?, json, Json.fields?, Json.knownMembers, Fields.required, Fields.find?,
      List.lookup_cons, Json.single?, Json.string?]
  | level tag nodes ih =>
    rw [depth] at h
    obtain ⟨room, rfl⟩ : ∃ k, room = k + 3 := ⟨room - 3, by omega⟩
    have hnodes : (Json.array (jsonList nodes)).list? (ofJson? room) = some nodes :=
      list?_jsonList fun n hn => ih n hn room (by have := depth_le_depthList hn; omega)
    simp [ofJson?, json, Json.fields?, Json.knownMembers, Fields.required, Fields.find?,
      List.lookup_cons, Json.single?, Json.string?, hnodes]

end Node

/-! ## in CBOR -/

namespace Cbor
variable {room : Nat} {read : Reader Node} {inner : Option (Reader Node)} {nodes : List Node}
  {bs : List UInt8} {tag s : String} {c : Content} {n : Node}

theorem nodeList_eq (nodes : List Node) : nodeList nodes = nodes.flatMap node := by
  induction nodes with
  | nil => rfl
  | cons n ns ih => rw [nodeList, ih, List.flatMap_cons]

/-- a level is read back, if its nodes are -/
theorem takes_levelBody (hlength : nodes.length < 2 ^ 64) (h : ∀ n ∈ nodes, Takes read (node n) n) :
    Takes (levelBody (some read)) (head 4 nodes.length ++ nodeList nodes) nodes := by
  intro rest
  have hhead : Takes itemHead (head 4 nodes.length) (.array (some nodes.length)) :=
    takes_itemHead (by simp) hlength
  rw [nodeList_eq, List.append_assoc]
  unfold levelBody
  rw [hhead]
  exact takes_repeated h rest

theorem takes_readField_tag (htag : tag.utf8ByteSize < 2 ^ 64) (read : Reader Content) :
    Takes (readField room read) (text "tag" ++ text tag) (.tag tag) := by
  intro rest
  have hname : Takes readName (text "tag") "tag".toUTF8.toList := takes_readName (by decide)
  rw [List.append_assoc]
  unfold readField
  rw [hname]
  simp [takes_readText htag rest]

theorem takes_readField_value {read : Reader Content} (h : Takes read bs c) :
    Takes (readField room read) (text "value" ++ bs) (.value c) := by
  intro rest
  have hname : Takes readName (text "value") "value".toUTF8.toList := takes_readName (by decide)
  rw [List.append_assoc]
  unfold readField
  rw [hname]
  simp [utf8_inj, h rest]

/-- the value of a leaf is read back -/
theorem takes_readContent_text (hs : s.utf8ByteSize < 2 ^ 64) :
    Takes (readContent inner) (head 5 1 ++ text "value" ++ text s) (.text s) := by
  intro rest
  have hhead : Takes itemHead (head 5 1) (.map (some 1)) := takes_itemHead (by simp) (by decide)
  have hname : Takes readName (text "value") "value".toUTF8.toList := takes_readName (by decide)
  rw [List.append_assoc, List.append_assoc]
  unfold readContent
  rw [hhead]
  show (readName (text "value" ++ (text s ++ rest))).bind _ = _
  rw [hname]
  simp [takes_readText hs rest]

/-- the value of a level is read back -/
theorem takes_readContent_nodes (h : Takes (levelBody inner) bs nodes) :
    Takes (readContent inner) (head 5 1 ++ text "level" ++ bs) (.nodes nodes) := by
  intro rest
  have hhead : Takes itemHead (head 5 1) (.map (some 1)) := takes_itemHead (by simp) (by decide)
  have hname : Takes readName (text "level") "level".toUTF8.toList := takes_readName (by decide)
  rw [List.append_assoc, List.append_assoc]
  unfold readContent
  rw [hhead]
  show (readName (text "level" ++ (bs ++ rest))).bind _ = _
  rw [hname]
  simp [utf8_inj, h rest]

/-- how the nodes of a level are read, where `room` more containers may be opened -/
def innerReader : Nat → Option (Reader Node)
  | 0 => none
  | room + 1 => some (readNode room)

/-- a node is read back, if its value is -/
theorem takes_readNode (htag : tag.utf8ByteSize < 2 ^ 64)
    (h : Takes (readContent (innerReader room)) bs c)
    (hn : assemble [.tag tag, .value c] = some n) :
    Takes (readNode (room + 2)) (head 5 2 ++ (text "tag" ++ text tag) ++ (text "value" ++ bs))
      n := by
  intro rest
  have hhead : Takes itemHead (head 5 2) (.map (some 2)) := takes_itemHead (by simp) (by decide)
  have hvalue : repeated (readField (room + 1) (readContent (innerReader room))) 1
      (text "value" ++ bs ++ rest) = some ([.value c], rest) := by
    rw [repeated, takes_readField_value h]
    rfl
  have hfields : repeated (readField (room + 1) (readContent (innerReader room))) 2
      (text "tag" ++ text tag ++ (text "value" ++ bs ++ rest)) =
        some ([.tag tag, .value c], rest) := by
    rw [repeated, takes_readField_tag htag]
    show (repeated _ 1 (text "value" ++ bs ++ rest)).bind _ = _
    rw [hvalue]
    rfl
  have hread : readNode (room + 2)
      (head 5 2 ++ (text "tag" ++ text tag ++ (text "value" ++ bs ++ rest))) =
      (repeated (readField (room + 1) (readContent (innerReader room))) 2
        (text "tag" ++ text tag ++ (text "value" ++ bs ++ rest))).bind fun x =>
          (assemble x.1).bind fun n => some (n, x.2) := by
    rw [readNode.eq_def]
    dsimp only
    rw [hhead]
    cases room with
    | zero => rfl
    | succ room => rfl
  rw [List.append_assoc, List.append_assoc, hread, hfields, Option.bind_some, hn]
  rfl

/-- a node is read back, where enough containers may be opened -/
theorem takes_node (n : Node) (hn : ∀ k ∈ n.lengths, k < 2 ^ 64) (room : Nat)
    (h : 3 * n.depth + 2 ≤ room) : Takes (readNode room) (node n) n := by
  induction n using Node.induct generalizing room with
  | leaf tag s =>
    obtain ⟨room, rfl⟩ : ∃ k, room = k + 2 := ⟨room - 2, by omega⟩
    have htag := hn tag.utf8ByteSize (by simp [Node.lengths])
    have hs := hn s.utf8ByteSize (by simp [Node.lengths])
    have htakes : Takes (readNode (room + 2)) _ (.leaf tag s) :=
      takes_readNode htag (takes_readContent_text hs) rfl
    simpa only [node, List.append_assoc] using htakes
  | level tag nodes ih =>
    rw [Node.depth] at h
    obtain ⟨room, rfl⟩ : ∃ k, room = k + 3 := ⟨room - 3, by omega⟩
    have htag := hn tag.utf8ByteSize (by simp [Node.lengths])
    have hlength := hn nodes.length (by simp [Node.lengths])
    have hnodes : ∀ n ∈ nodes, Takes (readNode room) (node n) n := by
      intro n hmem
      refine ih n hmem (fun k hk => hn k ?_) room ?_
      · rw [Node.lengths, Node.lengthsList_eq]
        exact List.mem_cons_of_mem _ (List.mem_cons_of_mem _ (List.mem_flatMap.mpr ⟨n, hmem, hk⟩))
      · have := Node.depth_le_depthList hmem
        omega
    have hcontent : Takes (readContent (innerReader (room + 1)))
        (head 5 1 ++ text "level" ++ (head 4 nodes.length ++ nodeList nodes)) (.nodes nodes) :=
      takes_readContent_nodes (takes_levelBody hlength hnodes)
    have htakes : Takes (readNode (room + 3)) _ (.level tag nodes) :=
      takes_readNode htag hcontent rfl
    simpa only [node, List.append_assoc] using htakes

end Cbor

/-! ## documents -/

namespace Document

def depth (d : Document) : Nat := Node.depthList d.nodes

/-- the lengths of the texts and of the levels in a document, and that of the document -/
def lengths (d : Document) : List Nat := d.nodes.length :: Node.lengthsList d.nodes

theorem ofJson?_toJson {d : Document} (h : 3 * d.depth + 4 ≤ jsonRoom) :
    ofJson? d.toJson = some d := by
  have hnodes : (Json.array (Node.jsonList d.nodes)).list? (Node.ofJson? (jsonRoom - 2)) =
      some d.nodes := Node.list?_jsonList fun n hn => Node.ofJson?_json n _ (by
    have hle : n.depth ≤ d.depth := Node.depth_le_depthList hn
    omega)
  have hnumberless : d.json.Numberless := by
    have hlist : (Json.array (Node.jsonList d.nodes)).Numberless := by
      rw [Node.jsonList_eq]
      exact .array (List.forall_mem_map.mpr fun n _ => n.numberless_json)
    exact .object (by simp) (by simp [hlist])
  unfold ofJson? toJson
  rw [Json.parse_render hnumberless]
  simp [ofJsonValue?, json, Json.fields?, Json.knownMembers, Fields.required, Fields.find?,
    hnodes]

theorem ofCbor?_toCbor {d : Document} (hd : ∀ k ∈ d.lengths, k < 2 ^ 64)
    (h : 3 * d.depth + 4 ≤ cborRoom) : ofCbor? d.toCbor = some d := by
  have hlength := hd d.nodes.length List.mem_cons_self
  have hnodes : ∀ n ∈ d.nodes, Cbor.Takes (Cbor.readNode (cborRoom - 1 - 1)) (Cbor.node n) n := by
    intro n hmem
    refine Cbor.takes_node n (fun k hk => hd k ?_) _ ?_
    · unfold lengths
      rw [Node.lengthsList_eq]
      exact List.mem_cons_of_mem _ (List.mem_flatMap.mpr ⟨n, hmem, hk⟩)
    · have hle : n.depth ≤ d.depth := Node.depth_le_depthList hmem
      omega
  have hhead : Cbor.Takes Cbor.itemHead (Cbor.head 5 1) (.map (some 1)) :=
    Cbor.takes_itemHead (by simp) (by decide)
  have hname : Cbor.Takes Cbor.readName (Cbor.text "nodes") "nodes".toUTF8.toList :=
    Cbor.takes_readName (by decide)
  have hlevel := Cbor.takes_levelBody hlength hnodes []
  rw [List.append_nil] at hlevel
  have hfield : Cbor.readDocumentField (cborRoom - 1)
      (Cbor.text "nodes" ++ (Cbor.head 4 d.nodes.length ++ Cbor.nodeList d.nodes)) =
        some (some d.nodes, []) := by
    unfold Cbor.readDocumentField
    rw [hname]
    simp [hlevel]
  unfold ofCbor? toCbor
  rw [List.append_assoc, List.append_assoc, hhead]
  simp [Cbor.items, Cbor.repeated, hfield]

/-- a document, the levels of which nest 40 deep at most, is read back from either encoding -/
theorem read_what_is_written {d : Document} (h : d.depth ≤ 40) :
    ofJson? d.toJson = some d ∧ ((∀ k ∈ d.lengths, k < 2 ^ 64) → ofCbor? d.toCbor = some d) := by
  refine ⟨ofJson?_toJson ?_, fun hd => ofCbor?_toCbor hd ?_⟩
  · unfold jsonRoom
    omega
  · unfold cborRoom
    omega

end Document

end EventBuckets
