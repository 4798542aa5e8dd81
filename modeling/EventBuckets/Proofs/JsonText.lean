import EventBuckets.Json.Reader

/-!
# Reading JSON texts back

The reader takes exactly what a value is written as, whatever follows it.  Numbers are left out:
they are kept as written, and not every text is one.

* `exists_piece`          a character of a string is read back, escaped or not;
* `Json.Numberless`       values without numbers, names and strings of which are texts;
* `Json.Reads`            a value is read back where the bound on the steps exceeds its length;
* `Numberless.reads`      so are all values without numbers;
* `Json.parse_render`     and so are whole texts.
-/

namespace EventBuckets

/-! ## strings -/

theorem hexValue_hexDigit : ∀ n < 16, hexValue (hexDigit n) = some n := by decide

theorem joinPieces_unit {n : Nat} (h : n < 0xd800) (ps : List Piece) :
    joinPieces (.unit n :: ps) = (joinPieces ps).map (Char.ofNat n :: ·) := by
  have hhigh : ¬(0xd800 ≤ n ∧ n < 0xdc00) := by omega
  have hlow : ¬(0xdc00 ≤ n ∧ n < 0xe000) := by omega
  have hhalf : ¬(0xd800 ≤ n ∧ n < 0xe000) := by omega
  cases ps with
  | nil => simp [joinPieces, hhalf]
  | cons p ps =>
    cases p with
    | char c => simp [joinPieces, hhalf]
    | unit m => rw [joinPieces, if_neg hhigh, if_neg hlow]

theorem readPieces_simple {e c : Char} (hu : e ≠ 'u') (he : simpleEscape e = some c)
    (cs : List Char) : readPieces ('\\' :: e :: cs) =
      (readPieces cs).map fun x => (.char c :: x.1, x.2) := by
  cases h : readPieces cs with
  | none => simp [readPieces, hu, he, h]
  | some x => simp [readPieces, hu, he, h]

theorem readPieces_unit {a b c d : Char} {n : Nat} (h : hexUnit a b c d = some n) (cs : List Char) :
    readPieces ('\\' :: 'u' :: a :: b :: c :: d :: cs) =
      (readPieces cs).map fun x => (.unit n :: x.1, x.2) := by
  cases hcs : readPieces cs with
  | none => simp [readPieces, h, hcs]
  | some x => simp [readPieces, h, hcs]

theorem readPieces_plain {c : Char} (hq : c ≠ '"') (hb : c ≠ '\\') (hc : ¬c.toNat < 32)
    (cs : List Char) : readPieces (c :: cs) =
      (readPieces cs).map fun x => (.char c :: x.1, x.2) := by
  cases h : readPieces cs with
  | none => simp [readPieces, hb, hc, h]
  | some x => simp [readPieces, hb, hc, h]

/-- a character of a string is one piece, also where it is escaped -/
theorem exists_piece (c : Char) : ∃ p,
    (∀ cs, readPieces (escapeChar c ++ cs) = (readPieces cs).map fun x => (p :: x.1, x.2)) ∧
    ∀ ps, joinPieces (p :: ps) = (joinPieces ps).map (c :: ·) := by
  have hsimple {e : Char} (hu : e ≠ 'u') (he : simpleEscape e = some c)
      (hc : escapeChar c = ['\\', e]) : ∃ p,
      (∀ cs, readPieces (escapeChar c ++ cs) = (readPieces cs).map fun x => (p :: x.1, x.2)) ∧
      ∀ ps, joinPieces (p :: ps) = (joinPieces ps).map (c :: ·) :=
    ⟨.char c, fun cs => by rw [hc]; exact readPieces_simple hu he cs, fun _ => rfl⟩
  have hofNat {n : Nat} (h : c.toNat = n) : c = Char.ofNat n := by rw [← h, Char.ofNat_toNat]
  by_cases hquote : c = '"'
  · subst hquote
    exact hsimple (e := '"') (by decide) rfl rfl
  by_cases hbackslash : c = '\\'
  · subst hbackslash
    exact hsimple (e := '\\') (by decide) rfl rfl
  by_cases h8 : c.toNat = 8
  · obtain rfl := hofNat h8
    exact hsimple (e := 'b') (by decide) rfl rfl
  by_cases h9 : c.toNat = 9
  · obtain rfl := hofNat h9
    exact hsimple (e := 't') (by decide) rfl rfl
  by_cases h10 : c.toNat = 10
  · obtain rfl := hofNat h10
    exact hsimple (e := 'n') (by decide) rfl rfl
  by_cases h12 : c.toNat = 12
  · obtain rfl := hofNat h12
    exact hsimple (e := 'f') (by decide) rfl rfl
  by_cases h13 : c.toNat = 13
  · obtain rfl := hofNat h13
    exact hsimple (e := 'r') (by decide) rfl rfl
  by_cases hcontrol : c.toNat < 32
  · refine ⟨.unit c.toNat, fun cs => ?_, fun ps => ?_⟩
    · have hunit : hexUnit '0' '0' (hexDigit (c.toNat / 16)) (hexDigit (c.toNat % 16)) =
          some c.toNat := by
        unfold hexUnit
        rw [hexValue_hexDigit _ (by omega), hexValue_hexDigit _ (by omega)]
        show some (((0 * 16 + 0) * 16 + c.toNat / 16) * 16 + c.toNat % 16) = _
        congr 1
        omega
      unfold escapeChar
      rw [if_neg hquote, if_neg hbackslash, if_neg h8, if_neg h9, if_neg h10, if_neg h12,
        if_neg h13, if_pos hcontrol]
      exact readPieces_unit hunit cs
    · rw [joinPieces_unit (by omega), Char.ofNat_toNat]
  · refine ⟨.char c, fun cs => ?_, fun _ => rfl⟩
    unfold escapeChar
    rw [if_neg hquote, if_neg hbackslash, if_neg h8, if_neg h9, if_neg h10, if_neg h12,
      if_neg h13, if_neg hcontrol]
    exact readPieces_plain hquote hbackslash hcontrol cs

/-- a string is read back after its opening quote -/
theorem readString_escaped (text : String) (rest : List Char) :
    readString (text.toList.flatMap escapeChar ++ '"' :: rest) = some (some text, rest) := by
  have go (cs : List Char) : ∃ ps,
      readPieces (cs.flatMap escapeChar ++ '"' :: rest) = some (ps, rest) ∧
        joinPieces ps = some cs := by
    induction cs with
    | nil => exact ⟨[], rfl, rfl⟩
    | cons c cs ih =>
      obtain ⟨ps, hread, hjoin⟩ := ih
      obtain ⟨p, hp, hc⟩ := exists_piece c
      refine ⟨p :: ps, ?_, ?_⟩
      · rw [List.flatMap_cons, List.append_assoc, hp, hread]
        rfl
      · rw [hc, hjoin]
        rfl
  obtain ⟨ps, hread, hjoin⟩ := go text.toList
  unfold readString
  rw [hread, Option.map_some]
  show some ((joinPieces ps).map String.ofList, rest) = _
  rw [hjoin, Option.map_some, String.ofList_toList]

theorem readString_nameChars {name : Option String} (h : name.isSome) (rest : List Char) :
    ∃ cs, nameChars name ++ rest = '"' :: cs ∧ readString cs = some (name, rest) := by
  obtain ⟨text, rfl⟩ := Option.isSome_iff_exists.mp h
  refine ⟨text.toList.flatMap escapeChar ++ '"' :: rest, ?_, readString_escaped text rest⟩
  show '"' :: (text.toList.flatMap escapeChar ++ ['"'] ++ rest) = _
  rw [List.append_assoc]
  rfl

/-! ## values -/

theorem skipSpace_cons {c : Char} (h : isSpace c = false) (cs : List Char) :
    skipSpace (c :: cs) = c :: cs := by
  unfold skipSpace
  rw [List.dropWhile_cons_of_neg (by simp [h])]

section
variable {n : Nat} {v : Json} {vs : List Json} {name : Option String}
  {ms : List (Option String × Json)} {c : Char} {cs more rest : List Char}

theorem readItems_last (h : readValue n cs = some (v, ']' :: rest)) :
    readItems (n + 1) cs = some ([v], rest) := by
  simp [readItems, h, skipSpace_cons (show isSpace ']' = false by decide)]

theorem readItems_more (h : readValue n cs = some (v, ',' :: more))
    (hmore : readItems n more = some (vs, rest)) :
    readItems (n + 1) cs = some (v :: vs, rest) := by
  simp [readItems, h, hmore, skipSpace_cons (show isSpace ',' = false by decide)]

theorem readMembers_last (hname : readString cs = some (name, ':' :: more))
    (h : readValue n more = some (v, '}' :: rest)) :
    readMembers (n + 1) ('"' :: cs) = some ([(name, v)], rest) := by
  simp [readMembers, hname, h, skipSpace_cons (show isSpace '"' = false by decide),
    skipSpace_cons (show isSpace ':' = false by decide),
    skipSpace_cons (show isSpace '}' = false by decide)]

theorem readMembers_more {later : List Char} (hname : readString cs = some (name, ':' :: more))
    (h : readValue n more = some (v, ',' :: later))
    (hmore : readMembers n later = some (ms, rest)) :
    readMembers (n + 1) ('"' :: cs) = some ((name, v) :: ms, rest) := by
  simp [readMembers, hname, h, hmore, skipSpace_cons (show isSpace '"' = false by decide),
    skipSpace_cons (show isSpace ':' = false by decide),
    skipSpace_cons (show isSpace ',' = false by decide)]

theorem readValue_string {text : String} (h : readString cs = some (some text, rest)) :
    readValue (n + 1) ('"' :: cs) = some (.string text, rest) := by
  simp [readValue, h, skipSpace_cons (show isSpace '"' = false by decide)]

theorem readValue_array (hc : isSpace c = false) (hend : c ≠ ']')
    (h : readItems n (c :: cs) = some (vs, rest)) :
    readValue (n + 1) ('[' :: c :: cs) = some (.array vs, rest) := by
  simp [readValue, h, hend, skipSpace_cons hc, skipSpace_cons (show isSpace '[' = false by decide)]

theorem readValue_object (h : readMembers n ('"' :: cs) = some (ms, rest)) :
    readValue (n + 1) ('{' :: '"' :: cs) = some (.object ms, rest) := by
  simp [readValue, h, skipSpace_cons (show isSpace '"' = false by decide),
    skipSpace_cons (show isSpace '{' = false by decide)]

end

namespace Json
variable {j v : Json} {vs : List Json} {name : Option String} {ms : List (Option String × Json)}
  {n : Nat} {rest : List Char}

/-- values without numbers, in which all names and strings are texts -/
inductive Numberless : Json → Prop
  | null : Numberless null
  | bool (b : Bool) : Numberless (bool b)
  | string (text : String) : Numberless (string text)
  | array {vs : List Json} (items : ∀ v ∈ vs, Numberless v) : Numberless (array vs)
  | object {ms : List (Option String × Json)} (names : ∀ m ∈ ms, m.1.isSome)
      (values : ∀ m ∈ ms, Numberless m.2) : Numberless (object ms)

/-- a value is read back with any bound on the steps beyond its length -/
def Reads (j : Json) : Prop :=
  ∀ n rest, j.chars.length < n → readValue n (j.chars ++ rest) = some (j, rest)

/-- a value starts with a character that is neither a blank nor the end of an array -/
theorem Numberless.exists_chars (h : j.Numberless) :
    ∃ c cs, j.chars = c :: cs ∧ isSpace c = false ∧ c ≠ ']' := by
  cases h with
  | null => exact ⟨'n', _, rfl, by decide, by decide⟩
  | bool b =>
    cases b with
    | true => exact ⟨'t', _, rfl, by decide, by decide⟩
    | false => exact ⟨'f', _, rfl, by decide, by decide⟩
  | string text => exact ⟨'"', _, rfl, by decide, by decide⟩
  | @array vs items =>
    cases vs with
    | nil => exact ⟨'[', _, rfl, by decide, by decide⟩
    | cons v vs => exact ⟨'[', _, by rw [chars], by decide, by decide⟩
  | @object ms names values =>
    cases ms with
    | nil => exact ⟨'{', _, rfl, by decide, by decide⟩
    | cons m ms => exact ⟨'{', _, by rw [chars], by decide, by decide⟩

theorem readItems_chars (hv : v.Reads) (hvs : ∀ w ∈ vs, w.Reads)
    (h : (v.chars ++ itemChars vs).length < n) :
    readItems n (v.chars ++ (itemChars vs ++ rest)) = some (v :: vs, rest) := by
  induction vs generalizing v n with
  | nil =>
    obtain _ | n := n
    · cases h
    rw [List.length_append, itemChars, List.length_singleton] at h
    exact readItems_last (hv n _ (by omega))
  | cons w ws ih =>
    obtain _ | n := n
    · cases h
    rw [List.length_append, itemChars, List.length_cons] at h
    refine readItems_more (hv n _ (by omega)) ?_
    show readItems n (w.chars ++ itemChars ws ++ rest) = _
    rw [List.append_assoc]
    exact ih (hvs w List.mem_cons_self) (fun u hu => hvs u (List.mem_cons_of_mem _ hu)) (by omega)

theorem readMembers_chars (hname : name.isSome) (hv : v.Reads) (hnames : ∀ m ∈ ms, m.1.isSome)
    (hms : ∀ m ∈ ms, m.2.Reads)
    (h : (nameChars name ++ ':' :: (v.chars ++ memberChars ms)).length < n) :
    readMembers n (nameChars name ++ ':' :: (v.chars ++ (memberChars ms ++ rest))) =
      some ((name, v) :: ms, rest) := by
  induction ms generalizing name v n with
  | nil =>
    obtain _ | n := n
    · cases h
    obtain ⟨cs, hcs, hread⟩ :=
      readString_nameChars hname (':' :: (v.chars ++ (memberChars [] ++ rest)))
    rw [List.length_append, List.length_cons, List.length_append, memberChars,
      List.length_singleton] at h
    rw [hcs]
    exact readMembers_last hread (hv n _ (by omega))
  | cons m ms ih =>
    obtain ⟨later, w⟩ := m
    obtain _ | n := n
    · cases h
    obtain ⟨cs, hcs, hread⟩ :=
      readString_nameChars hname (':' :: (v.chars ++ (memberChars ((later, w) :: ms) ++ rest)))
    rw [List.length_append, List.length_cons, List.length_append, memberChars, List.length_cons]
      at h
    rw [hcs]
    refine readMembers_more hread (hv n _ (by omega)) ?_
    show readMembers n (nameChars later ++ ':' :: (w.chars ++ memberChars ms) ++ rest) = _
    rw [List.append_assoc, List.cons_append, List.append_assoc]
    exact ih (hnames _ List.mem_cons_self) (hms _ List.mem_cons_self)
      (fun u hu => hnames u (List.mem_cons_of_mem _ hu))
      (fun u hu => hms u (List.mem_cons_of_mem _ hu)) (by omega)

/-- a value without numbers is read back -/
theorem Numberless.reads (h : j.Numberless) : j.Reads := by
  induction h with
  | null =>
    rintro (_ | n) rest hn
    · cases hn
    · rfl
  | bool b =>
    rintro (_ | n) rest hn
    · cases hn
    · cases b with
      | true => rfl
      | false => rfl
  | string text =>
    rintro (_ | n) rest hn
    · cases hn
    · show readValue (n + 1) ('"' :: (text.toList.flatMap escapeChar ++ ['"'] ++ rest)) = _
      rw [List.append_assoc]
      exact readValue_string (readString_escaped text rest)
  | @array vs items ih =>
    rintro (_ | n) rest hn
    · cases hn
    cases vs with
    | nil => rfl
    | cons v vs =>
      obtain ⟨c, cs, hcs, hspace, hend⟩ := (items v List.mem_cons_self).exists_chars
      have hread := @readItems_chars v vs n rest (ih v List.mem_cons_self)
        (fun w hw => ih w (List.mem_cons_of_mem _ hw)) (by
          rw [chars, List.length_cons] at hn
          omega)
      rw [hcs, List.cons_append] at hread
      rw [chars, List.cons_append, List.append_assoc, hcs, List.cons_append]
      exact readValue_array hspace hend hread
  | @object ms names values ih =>
    rintro (_ | n) rest hn
    · cases hn
    cases ms with
    | nil => rfl
    | cons m ms =>
      obtain ⟨name, v⟩ := m
      have hname := names _ List.mem_cons_self
      have hread := @readMembers_chars v name ms n rest hname (ih _ List.mem_cons_self)
        (fun w hw => names w (List.mem_cons_of_mem _ hw))
        (fun w hw => ih w (List.mem_cons_of_mem _ hw)) (by
          rw [chars, List.length_cons] at hn
          omega)
      obtain ⟨cs, hcs, -⟩ :=
        readString_nameChars hname (':' :: (v.chars ++ (memberChars ms ++ rest)))
      rw [hcs] at hread
      rw [chars, List.cons_append, List.append_assoc, List.cons_append, List.append_assoc, hcs]
      exact readValue_object hread

/-- a value without numbers is what its text is read as -/
theorem parse_render (h : j.Numberless) : parse j.render = some j := by
  have hread := h.reads (j.chars.length + 1) [] (Nat.lt_succ_self _)
  rw [List.append_nil] at hread
  unfold parse render parseChars
  rw [String.toList_ofList, hread]
  rfl

end Json

end EventBuckets
