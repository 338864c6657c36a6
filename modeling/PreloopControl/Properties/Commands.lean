import PreloopControl.Lib.Lines
import PreloopControl.Lib.LastWrite
import PreloopControl.Worker.Commands

/-!
# The Codec of Workflow Commands

A command rendered with the official escapes and read back. The data and the values survive
whatever they hold: the codes are undone one after the other, and the one of the percent
sign last, so that no code is read that was not written. The name and the keys are not
escaped, and have to keep clear of the marks between the parts.

## Main definitions

* `escapeData`, `escapeProperty`: The official escapes.
* `renderCommand`: The line of a command.
* `trimmedProps`: The properties without the white space at both ends of their list.

## Theorems

* `unescapeData_escape`, `unescapeProperty_escape`: The replacements undo the escapes.
* `trim_renderProps`: White space goes from the first key and the last value.
* `command_round_trip`: A rendered command is read back.
-/

namespace Preloop

namespace Worker

/-! ## Escapes -/

/-- The escape of a character of the data. -/
def escapeDataChar (c : Char) : Text :=
  if c = '%' then ['%', '2', '5']
  else if c = '\r' then ['%', '0', 'D']
  else if c = '\n' then ['%', '0', 'A']
  else [c]

/-- The escape of a character of a property. -/
def escapePropertyChar (c : Char) : Text :=
  if c = ':' then ['%', '3', 'A'] else if c = ',' then ['%', '2', 'C'] else escapeDataChar c

def escapeData (t : Text) : Text := t.flatMap escapeDataChar

def escapeProperty (t : Text) : Text := t.flatMap escapePropertyChar

theorem coded_escapeData : Escapes.Coded '%' escapeDataChar := by
  intro d
  unfold escapeDataChar
  split_ifs with h1 h2 h3
  · exact .inr ⟨'2', '5', rfl, by decide, by decide⟩
  · exact .inr ⟨'0', 'D', rfl, by decide, by decide⟩
  · exact .inr ⟨'0', 'A', rfl, by decide, by decide⟩
  · exact .inl ⟨rfl, h1⟩

theorem coded_escapeProperty : Escapes.Coded '%' escapePropertyChar := by
  intro d
  unfold escapePropertyChar
  split_ifs with h1 h2
  · exact .inr ⟨'3', 'A', rfl, by decide, by decide⟩
  · exact .inr ⟨'2', 'C', rfl, by decide, by decide⟩
  · exact coded_escapeData d

/-- The data's codes undone in the order of the code, from any text whose characters are
    written like the data's. -/
theorem undo_data {f : Char → Text} (hf : Escapes.Coded '%' f)
    (hpercent : ∀ d, f d = ['%', '2', '5'] ↔ d = '%')
    (hreturn : ∀ d, f d = ['%', '0', 'D'] ↔ d = '\r')
    (hfeed : ∀ d, f d = ['%', '0', 'A'] ↔ d = '\n')
    (hself : ∀ d, d ≠ '%' → d ≠ '\r' → d ≠ '\n' → f d = [d]) (t : Text) :
    unescapeData (t.flatMap f) = t := by
  -- undoing a code leaves the codes of the other characters as they are
  have hreturn' : ∀ d, Escapes.undo f '\n' d = ['%', '0', 'D'] ↔ d = '\r' := by
    intro d
    unfold Escapes.undo
    by_cases hd : d = '\n'
    · rw [if_pos hd, hd]
      decide
    · rw [if_neg hd, hreturn]
  have hpercent' : ∀ d, Escapes.undo (Escapes.undo f '\n') '\r' d = ['%', '2', '5'] ↔ d = '%' := by
    intro d
    unfold Escapes.undo
    by_cases hr : d = '\r'
    · rw [if_pos hr, hr]
      decide
    · rw [if_neg hr]
      by_cases hn : d = '\n'
      · rw [if_pos hn, hn]
        decide
      · rw [if_neg hn, hpercent]
  -- the line feed first, the percent sign last, so that no code is made on the way
  have hone := hf.undo (c := '\n') (by decide)
  have htwo := hone.undo (c := '\r') (by decide)
  rw [unescapeData, Escapes.replace_flatMap hf ((hfeed _).mpr rfl) (fun d => (hfeed d).mp),
    Escapes.replace_flatMap hone ((hreturn' _).mpr rfl) (fun d => (hreturn' d).mp),
    Escapes.replace_flatMap htwo ((hpercent' _).mpr rfl) (fun d => (hpercent' d).mp)]
  refine Escapes.flatMap_self (fun d => ?_) t
  unfold Escapes.undo
  by_cases hp : d = '%'
  · rw [if_pos hp, hp]
  · rw [if_neg hp]
    by_cases hr : d = '\r'
    · rw [if_pos hr, hr]
    · rw [if_neg hr]
      by_cases hn : d = '\n'
      · rw [if_pos hn, hn]
      · rw [if_neg hn, hself d hp hr hn]

@[simp] theorem unescapeData_escape (t : Text) : unescapeData (escapeData t) = t := by
  refine undo_data coded_escapeData ?_ ?_ ?_ ?_ t
  · intro d
    unfold escapeDataChar
    split_ifs with h1 h2 h3 <;> simp_all
  · intro d
    unfold escapeDataChar
    split_ifs with h1 h2 h3 <;> simp_all
  · intro d
    unfold escapeDataChar
    split_ifs with h1 h2 h3 <;> simp_all
  · intro d hp hr hn
    rw [escapeDataChar, if_neg hp, if_neg hr, if_neg hn]

theorem escapePropertyChar_of_ne {d : Char} (hcolon : d ≠ ':') (hcomma : d ≠ ',') :
    escapePropertyChar d = escapeDataChar d := by
  rw [escapePropertyChar, if_neg hcolon, if_neg hcomma]

/-- Once the codes of colon and comma are undone, a value is written like data. -/
theorem unescapeProperty_escape (t : Text) : unescapeProperty (escapeProperty t) = t := by
  have hone := coded_escapeProperty.undo (c := ':') (by decide)
  have htwo := hone.undo (c := ',') (by decide)
  -- a code stands for its character only, since the characters are coded apart
  have hcolon : ∀ d, escapePropertyChar d = ['%', '3', 'A'] → d = ':' := by
    intro d h
    unfold escapePropertyChar escapeDataChar at h
    split_ifs at h with h1 h2 h3 h4 h5 <;> simp_all
  have hcomma : ∀ d, Escapes.undo escapePropertyChar ':' d = ['%', '2', 'C'] → d = ',' := by
    intro d h
    unfold Escapes.undo escapePropertyChar escapeDataChar at h
    split_ifs at h with h1 h2 h3 h4 h5 <;> simp_all
  have hrest : unescapeProperty (escapeProperty t) =
      unescapeData (t.flatMap (Escapes.undo (Escapes.undo escapePropertyChar ':') ',')) := by
    rw [unescapeProperty, escapeProperty,
      Escapes.replace_flatMap coded_escapeProperty rfl hcolon,
      Escapes.replace_flatMap hone rfl hcomma, unescapeData]
  have hvalue : Escapes.undo (Escapes.undo escapePropertyChar ':') ',' = escapeDataChar := by
    funext d
    unfold Escapes.undo
    by_cases hc : d = ','
    · rw [if_pos hc, hc]
      rfl
    · rw [if_neg hc]
      by_cases hd : d = ':'
      · rw [if_pos hd, hd]
        rfl
      · rw [if_neg hd, escapePropertyChar_of_ne hd hc]
  rw [hrest, hvalue]
  exact unescapeData_escape t

theorem escapeProperty_ne_nil {t : Text} (h : t ≠ []) : escapeProperty t ≠ [] := by
  intro hnil
  have hback := unescapeProperty_escape t
  rw [hnil] at hback
  exact h hback.symm

/-- An escaped value holds no mark between the parts. -/
theorem not_mem_escapeProperty (t : Text) : ':' ∉ escapeProperty t ∧ ',' ∉ escapeProperty t := by
  constructor
  · intro h
    rcases List.mem_flatMap.mp h with ⟨d, -, hd⟩
    unfold escapePropertyChar escapeDataChar at hd
    split_ifs at hd with h1 h2 h3 h4 h5 <;> simp at hd
    exact h1 hd.symm
  · intro h
    rcases List.mem_flatMap.mp h with ⟨d, -, hd⟩
    unfold escapePropertyChar escapeDataChar at hd
    split_ifs at hd with h1 h2 h3 h4 h5 <;> simp at hd
    exact h2 hd.symm

/-! ## Rendered commands -/

/-- `key=val`. -/
def renderProperty (p : Text × Text) : Text := p.1 ++ '=' :: escapeProperty p.2

/-- The properties, with commas between them. -/
def renderProps (props : List (Text × Text)) : Text :=
  [','].intercalate (props.map renderProperty)

/-- What stands between the colons. -/
def renderInfo (name : Text) (props : List (Text × Text)) : Text :=
  if props = [] then name else name ++ ' ' :: renderProps props

/-- The line of a command. -/
def renderCommand (name : Text) (props : List (Text × Text)) (data : Text) : Text :=
  "::".toList ++ (renderInfo name props ++ ("::".toList ++ escapeData data))

/-- The first key without the white space in front of it. -/
def trimFirst : List (Text × Text) → List (Text × Text)
  | [] => []
  | p :: props => (p.1.dropWhile Text.isWhitespace, p.2) :: props

/-- A value without the white space behind it that is not escaped. -/
def trimValue (t : Text) : Text :=
  t.rdropWhile fun c => Text.isWhitespace c && c ≠ '\r' && c ≠ '\n'

/-- The last value without the white space behind it. -/
def trimLast : List (Text × Text) → List (Text × Text)
  | [] => []
  | [p] => [(p.1, trimValue p.2)]
  | p :: q :: props => p :: trimLast (q :: props)

/-- The properties without the white space at both ends of their list. -/
def trimmedProps (props : List (Text × Text)) : List (Text × Text) := trimFirst (trimLast props)

theorem renderProps_cons (p q : Text × Text) (props : List (Text × Text)) :
    renderProps (p :: q :: props) = renderProperty p ++ ',' :: renderProps (q :: props) := by
  rw [renderProps, List.map_cons, List.map_cons, List.intercalate_cons_cons, renderProps,
    List.map_cons, List.append_assoc, List.singleton_append]

theorem renderProps_single (p : Text × Text) : renderProps [p] = renderProperty p := by
  rw [renderProps, List.map_cons, List.map_nil, List.intercalate_singleton]

/-- A code does not end in white space. -/
theorem rdropWhile_escapeProperty (t : Text) :
    (escapeProperty t).rdropWhile Text.isWhitespace = escapeProperty (trimValue t) := by
  induction t using List.reverseRecOn with
  | nil => rfl
  | append_singleton t c ih =>
      have hconcat : escapeProperty (t ++ [c]) = escapeProperty t ++ escapePropertyChar c := by
        rw [escapeProperty, List.flatMap_append, List.flatMap_singleton, escapeProperty]
      -- a code's last character
      have hcode : ∀ a b d : Char, escapePropertyChar c = [a, b, d] →
          Text.isWhitespace d = false →
          (escapeProperty t ++ escapePropertyChar c).rdropWhile Text.isWhitespace =
            escapeProperty t ++ escapePropertyChar c := by
        intro a b d hc hd
        have hsplit : escapeProperty t ++ [a, b, d] = (escapeProperty t ++ [a, b]) ++ [d] := by simp
        rw [hc, hsplit, List.rdropWhile_concat_neg]
        rw [hd]
        exact Bool.false_ne_true
      have hkeep : ∀ {P : Bool}, P = false →
          (if P = true then trimValue t else t ++ [c]) = t ++ [c] := by
        rintro P rfl
        rfl
      have htrim : trimValue (t ++ [c]) =
          if (Text.isWhitespace c && c ≠ '\r' && c ≠ '\n') = true then trimValue t
          else t ++ [c] := by
        rw [trimValue, List.rdropWhile_concat, trimValue]
      rw [hconcat, htrim]
      by_cases h1 : c = ':'
      · rw [hcode _ _ 'A' (by rw [h1]; rfl) (by decide), hkeep (by rw [h1]; decide), hconcat]
      · by_cases h2 : c = ','
        · rw [hcode _ _ 'C' (by rw [h2]; rfl) (by decide), hkeep (by rw [h2]; decide), hconcat]
        · by_cases h3 : c = '%'
          · rw [hcode _ _ '5' (by rw [h3]; rfl) (by decide), hkeep (by rw [h3]; decide), hconcat]
          · by_cases h4 : c = '\r'
            · rw [hcode _ _ 'D' (by rw [h4]; rfl) (by decide), hkeep (by rw [h4]; decide), hconcat]
            · by_cases h5 : c = '\n'
              · rw [hcode _ _ 'A' (by rw [h5]; rfl) (by decide),
                  hkeep (by rw [h5]; decide), hconcat]
              · -- a character that stands for itself
                have hself : escapePropertyChar c = [c] := by
                  rw [escapePropertyChar_of_ne h1 h2, escapeDataChar, if_neg h3, if_neg h4,
                    if_neg h5]
                rw [hself, List.rdropWhile_concat]
                by_cases hc : Text.isWhitespace c = true
                · rw [if_pos hc, if_pos (by simp [hc, h4, h5]), ih]
                · rw [if_neg hc, if_neg (by simp [hc]), hconcat, hself]

theorem rdropWhile_append_cons {p : Char → Bool} {c : Char} (hc : p c = false) (a b : Text) :
    (a ++ c :: b).rdropWhile p = a ++ c :: b.rdropWhile p := by
  have hrev : (a ++ c :: b).reverse = b.reverse ++ c :: a.reverse := by simp
  rw [List.rdropWhile, hrev, Text.dropWhile_append_cons hc, List.rdropWhile]
  simp

/-- Behind the last value. -/
theorem rdropWhile_renderProps (p : Text × Text) (props : List (Text × Text)) :
    (renderProps (p :: props)).rdropWhile Text.isWhitespace =
      renderProps (trimLast (p :: props)) := by
  induction props generalizing p with
  | nil =>
      rw [renderProps_single, trimLast, renderProps_single, renderProperty,
        rdropWhile_append_cons (by decide), rdropWhile_escapeProperty, renderProperty]
  | cons q props ih =>
      rw [renderProps_cons, rdropWhile_append_cons (by decide), ih, trimLast]
      cases props with
      | nil => rw [trimLast, renderProps_cons]
      | cons r props => rw [trimLast, renderProps_cons]

/-- White space goes from the first key and the last value. -/
theorem trim_renderProps (props : List (Text × Text)) :
    Text.trim (renderProps props) = renderProps (trimmedProps props) := by
  have hequals : Text.isWhitespace '=' = false := by decide
  -- in front of the first key
  have hfront : ∀ (p : Text × Text) (rest : Text), (renderProperty p ++ rest).dropWhile
      Text.isWhitespace = renderProperty (p.1.dropWhile Text.isWhitespace, p.2) ++ rest := by
    intro p rest
    rw [renderProperty, List.append_assoc, List.cons_append, Text.dropWhile_append_cons hequals,
      renderProperty, List.append_assoc, List.cons_append]
  have hfirst : ∀ props, (renderProps props).dropWhile Text.isWhitespace =
      renderProps (trimFirst props) := by
    intro props
    match props with
    | [] => rfl
    | [p] =>
        have h := hfront p []
        rw [List.append_nil, List.append_nil] at h
        rw [renderProps_single, h, trimFirst, renderProps_single]
    | p :: q :: props => rw [renderProps_cons, hfront, trimFirst, renderProps_cons]
  rw [Text.trim, hfirst, trimmedProps]
  match props with
  | [] => rfl
  | [p] => exact rdropWhile_renderProps _ []
  | p :: q :: props =>
      rw [trimFirst, rdropWhile_renderProps, trimLast, trimLast, trimFirst]

/-! ## Colons -/

/-- Not both are colons. -/
abbrev Apart (a b : Char) : Prop := ¬ (a = ':' ∧ b = ':')

theorem contains_colons {t : Text} : Text.contains "::".toList t = false ↔ t.IsChain Apart := by
  rw [List.isChain_iff_forall_rel_of_append_cons_cons, Bool.eq_false_iff, Ne, Text.contains_iff]
  constructor
  · rintro h a b x y rfl ⟨rfl, rfl⟩
    exact h ⟨x, y, rfl⟩
  · rintro h ⟨x, y, rfl⟩
    exact h rfl ⟨rfl, rfl⟩

/-- Another character keeps colons apart. -/
theorem chain_append_cons {c : Char} (hc : c ≠ ':') {a b : Text} (ha : a.IsChain Apart)
    (hb : b.IsChain Apart) : (a ++ c :: b).IsChain Apart := by
  refine List.isChain_append.mpr ⟨ha, List.isChain_cons.mpr ⟨fun y _ h => hc h.1, hb⟩, ?_⟩
  rintro x - y hy ⟨-, rfl⟩
  rw [List.head?_cons, Option.mem_some_iff] at hy
  exact hc hy

theorem chain_of_not_mem {t : Text} (h : ':' ∉ t) : t.IsChain Apart := by
  rw [List.isChain_iff_forall_rel_of_append_cons_cons]
  rintro a b x y rfl ⟨rfl, -⟩
  exact h (by simp)

/-- The property list never ends in a colon, since its last value is escaped. -/
theorem chain_renderProps {props : List (Text × Text)} (hne : props ≠ [])
    (hkeys : ∀ p ∈ props, Text.contains "::".toList p.1 = false) :
    (renderProps props ++ [':']).IsChain Apart := by
  have hlast : ∀ p : Text × Text, Text.contains "::".toList p.1 = false →
      (renderProperty p ++ [':']).IsChain Apart := by
    intro p hp
    rw [renderProperty, List.append_assoc, List.cons_append]
    refine chain_append_cons (by decide) (contains_colons.mp hp) (List.isChain_append.mpr
      ⟨chain_of_not_mem (not_mem_escapeProperty p.2).1, .singleton _, ?_⟩)
    rintro x hx y - ⟨rfl, -⟩
    exact (not_mem_escapeProperty p.2).1 (List.mem_of_mem_getLast? hx)
  induction props with
  | nil => exact absurd rfl hne
  | cons p props ih =>
      rcases List.forall_mem_cons.mp hkeys with ⟨hp, hprops⟩
      cases props with
      | nil =>
          rw [renderProps_single]
          exact hlast p hp
      | cons q props =>
          rw [renderProps_cons, List.append_assoc, List.cons_append]
          exact chain_append_cons (by decide) (hlast p hp).left_of_append
            (ih (List.cons_ne_nil q props) hprops)

/-- The first two colons behind the command part are the ones in front of the data. -/
theorem cut_renderInfo {name : Text} {props : List (Text × Text)}
    (hcolons : Text.contains "::".toList name = false)
    (hlast : props = [] → name.getLast? ≠ some ':')
    (hkeys : ∀ p ∈ props, Text.contains "::".toList p.1 = false) (data : Text) :
    Text.cut "::".toList (renderInfo name props ++ ("::".toList ++ data)) =
      some (renderInfo name props, data) := by
  refine Text.cut_exact (by decide) (contains_colons.mpr ?_) data
  have hname := contains_colons.mp hcolons
  change (renderInfo name props ++ [':']).IsChain Apart
  unfold renderInfo
  by_cases hprops : props = []
  · rw [if_pos hprops]
    refine List.isChain_append.mpr ⟨hname, .singleton _, ?_⟩
    rintro x hx y - ⟨rfl, -⟩
    exact hlast hprops hx
  · rw [if_neg hprops, List.append_assoc, List.cons_append]
    exact chain_append_cons (by decide) hname (chain_renderProps hprops hkeys)

/-! ## Reading back -/

variable {lowercase : Text → Text}

theorem putProperty_render {p : Text × Text} (hequals : '=' ∉ p.1) (hkey : p.1 ≠ [])
    (hval : p.2 ≠ []) (properties : SortedMap Text Text) :
    putProperty lowercase properties (renderProperty p) =
      properties.insert (lowercase p.1) p.2 := by
  rw [putProperty, renderProperty, Text.cut_char hequals]
  simp only
  rw [if_pos ⟨hkey, escapeProperty_ne_nil hval⟩, unescapeProperty_escape]

/-- What is left of a property after trimming is the end of its key. -/
theorem exists_of_mem_trimmedProps {props : List (Text × Text)} {q : Text × Text}
    (h : q ∈ trimmedProps props) : ∃ p ∈ props, q.1 <:+ p.1 := by
  -- trimming the end leaves the keys, trimming the front shortens the first one
  have hlast : ∀ {props : List (Text × Text)} {q : Text × Text}, q ∈ trimLast props →
      ∃ p ∈ props, q.1 = p.1 := by
    intro props
    induction props with
    | nil => exact fun h => absurd h List.not_mem_nil
    | cons p props ih =>
        intro q hq
        cases props with
        | nil =>
            rw [List.mem_singleton.mp hq]
            exact ⟨p, List.mem_singleton_self p, rfl⟩
        | cons r props =>
            rcases List.mem_cons.mp hq with rfl | hq
            · exact ⟨q, List.mem_cons_self, rfl⟩
            · rcases ih hq with ⟨p', hp', hkey⟩
              exact ⟨p', List.mem_cons_of_mem _ hp', hkey⟩
  unfold trimmedProps at h
  cases htrim : trimLast props with
  | nil =>
      rw [htrim] at h
      cases h
  | cons p rest =>
      rw [htrim] at h
      rcases List.mem_cons.mp h with rfl | h
      · rcases hlast (htrim ▸ List.mem_cons_self) with ⟨p', hp', hkey⟩
        exact ⟨p', hp', hkey ▸ List.dropWhile_suffix _⟩
      · rcases hlast (htrim ▸ List.mem_cons_of_mem _ h) with ⟨p', hp', hkey⟩
        exact ⟨p', hp', hkey ▸ List.suffix_rfl⟩

theorem trimmedProps_ne_nil {props : List (Text × Text)} (h : props ≠ []) :
    trimmedProps props ≠ [] := by
  match props with
  | [] => exact absurd rfl h
  | [p] => exact List.cons_ne_nil _ _
  | p :: q :: props => exact List.cons_ne_nil _ _

/-- The property list is read as what it was rendered from. -/
theorem propertiesOf_render {props : List (Text × Text)} (hne : props ≠ [])
    (hkeys : ∀ p ∈ props, '=' ∉ p.1 ∧ ',' ∉ p.1)
    (hfilled : ∀ p ∈ trimmedProps props, p.1 ≠ [] ∧ p.2 ≠ []) :
    propertiesOf lowercase (renderProps props) =
      SortedMap.ofList ((trimmedProps props).map fun p => (lowercase p.1, p.2)) := by
  have hmarks : ∀ p ∈ trimmedProps props, '=' ∉ p.1 ∧ ',' ∉ p.1 := by
    intro p hp
    rcases exists_of_mem_trimmedProps hp with ⟨q, hq, hsuffix⟩
    exact ⟨fun h => (hkeys q hq).1 (hsuffix.subset h), fun h => (hkeys q hq).2 (hsuffix.subset h)⟩
  have hsplit : (renderProps (trimmedProps props)).splitOn ',' =
      (trimmedProps props).map renderProperty := by
    refine List.splitOn_intercalate ',' (fun l hl => ?_) ?_
    · rcases List.mem_map.mp hl with ⟨p, hp, rfl⟩
      rw [renderProperty, List.mem_append, List.mem_cons]
      rintro (h | h | h)
      · exact (hmarks p hp).2 h
      · exact absurd h (by decide)
      · exact (not_mem_escapeProperty p.2).2 h
    · exact fun h => trimmedProps_ne_nil hne (List.map_eq_nil_iff.mp h)
  rw [propertiesOf, trim_renderProps, hsplit, SortedMap.ofList, List.foldl_map, List.foldl_map]
  refine List.foldl_ext _ _ _ fun properties p hp => ?_
  exact putProperty_render (hmarks p hp).1 (hfilled p hp).1 (hfilled p hp).2 properties

/-- With distinct keys an entry is found as it was put in, and no other. -/
theorem lookup_ofList_iff {es : List (Text × Text)} (h : (es.map (·.1)).Nodup) (k v : Text) :
    (SortedMap.ofList es).lookup k = some v ↔ (k, v) ∈ es := by
  refine ⟨SortedMap.mem_of_lookup_ofList, fun hmem => ?_⟩
  refine SortedMap.lookup_foldl_insert_of_mem ∅ hmem fun w hw => ?_
  exact congrArg Prod.snd (List.inj_on_of_nodup_map h hw hmem rfl)

/-- A command whose name and keys keep clear of the marks is read back, its name and keys in
    lower case, without the white space at the two ends of the property list. -/
theorem command_round_trip (lowercase : Text → Text) (name data : Text)
    (props : List (Text × Text)) (hname : name ≠ []) (hspace : ' ' ∉ name)
    (hcolons : Text.contains "::".toList name = false)
    (hlast : props = [] → name.getLast? ≠ some ':')
    (hkeys : ∀ p ∈ props, '=' ∉ p.1 ∧ ',' ∉ p.1 ∧ Text.contains "::".toList p.1 = false)
    (hfilled : ∀ p ∈ trimmedProps props, p.1 ≠ [] ∧ p.2 ≠ [])
    (hdistinct : ((trimmedProps props).map fun p => lowercase p.1).Nodup) :
    ∃ properties, parseCommand lowercase (renderCommand name props data) =
        some (some { name := lowercase name, properties := properties, data := data }) ∧
      ∀ key val, properties.lookup key = some val ↔
        ∃ p ∈ trimmedProps props, lowercase p.1 = key ∧ p.2 = val := by
  have hcut := cut_renderInfo hcolons hlast (fun p hp => (hkeys p hp).2.2) (escapeData data)
  have hparse : parseCommand lowercase (renderCommand name props data) =
      some ((commandOf lowercase (renderInfo name props) (escapeData data)).or
        (legacy lowercase (renderCommand name props data))) := by
    -- what is rendered begins with the mark and has no white space in front
    have htrim : trimStart (renderCommand name props data) = renderCommand name props data :=
      List.dropWhile_cons_of_neg (by decide)
    have hpre : "::".toList.isPrefixOf (renderCommand name props data) = true :=
      List.isPrefixOf_iff_prefix.mpr (List.prefix_append _ _)
    have hdrop : (renderCommand name props data).drop 2 =
        renderInfo name props ++ ("::".toList ++ escapeData data) := rfl
    rw [parseCommand_eq, doubleColon, htrim, if_pos hpre, hdrop, hcut, Option.bind_some]
  rw [hparse, commandOf]
  by_cases hprops : props = []
  · -- no property list, and no space to find
    refine ⟨∅, ?_, fun key val => ?_⟩
    · rw [renderInfo, if_pos hprops, Text.cut_char_none hspace]
      simp only
      rw [if_neg hname, unescapeData_escape]
      rfl
    · rw [hprops]
      simp [trimmedProps, trimLast, trimFirst]
  · refine ⟨SortedMap.ofList ((trimmedProps props).map fun p => (lowercase p.1, p.2)), ?_,
      fun key val => ?_⟩
    · rw [renderInfo, if_neg hprops, Text.cut_char hspace]
      simp only
      rw [if_neg hname, unescapeData_escape,
        propertiesOf_render hprops (fun p hp => ⟨(hkeys p hp).1, (hkeys p hp).2.1⟩) hfilled]
      rfl
    · rw [lookup_ofList_iff (by rw [List.map_map]; exact hdistinct), List.mem_map]
      simp only [Prod.mk.injEq]

theorem command_round_trip_notice :
    ∃ properties, parseCommand id (renderCommand "notice".toList
        [("file".toList, "a:b,c".toList), ("title".toList, "100%".toList)] "x::y\n%0A".toList) =
        some (some { name := "notice".toList, properties := properties,
                     data := "x::y\n%0A".toList }) ∧
      ∀ key val, properties.lookup key = some val ↔
        ∃ p ∈ trimmedProps [("file".toList, "a:b,c".toList), ("title".toList, "100%".toList)],
          id p.1 = key ∧ p.2 = val :=
  command_round_trip id "notice".toList "x::y\n%0A".toList
    [("file".toList, "a:b,c".toList), ("title".toList, "100%".toList)]
    (by decide) (by decide) (by decide) (by decide) (by decide) (by decide) (by decide)

/-- Names that end in a colon, keys with a mark, keys in upper case, and a list that is left
    without its last value. -/
theorem command_marks_cut :
    parseCommand (·.map Char.toLower) (renderCommand ['a', ':'] [] ['d']) =
        some (some { name := ['a'], properties := ∅, data := [':', 'd'] }) ∧
      parseCommand (·.map Char.toLower) (renderCommand ['a'] [(['k', '=', 'l'], ['v'])] []) =
        some (some
          { name := ['a'], properties := .ofList [(['k'], ['l', '=', 'v'])], data := [] }) ∧
      parseCommand (·.map Char.toLower) (renderCommand ['a'] [(['k', ',', 'l'], ['v'])] []) =
        some (some { name := ['a'], properties := .ofList [(['l'], ['v'])], data := [] }) ∧
      parseCommand (·.map Char.toLower) (renderCommand ['a'] [(['k', ':', ':'], ['v'])] []) =
        some (some { name := ['a'], properties := ∅, data := ['=', 'v', ':', ':'] }) ∧
      parseCommand (·.map Char.toLower) (renderCommand ['a'] [(['K'], ['v'])] []) =
        some (some { name := ['a'], properties := .ofList [(['k'], ['v'])], data := [] }) ∧
      parseCommand (·.map Char.toLower) (renderCommand ['a'] [(['k'], [' '])] []) =
        some (some { name := ['a'], properties := ∅, data := [] }) ∧
      parseCommand (·.map Char.toLower) (renderCommand ['a'] [([], ['v'])] []) =
        some (some { name := ['a'], properties := ∅, data := [] }) := by
  decide

end Worker

end Preloop
