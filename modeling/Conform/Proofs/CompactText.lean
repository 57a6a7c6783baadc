import Conform.Proofs.FloatText
import Conform.Proofs.QuotedText
import Conform.Proofs.Writing

namespace Conform

namespace Json

inductive Escaped : Char → List Char → Prop
  | quote : Escaped '"' ['\\', '"']
  | backslash : Escaped '\\' ['\\', '\\']
  | newline : Escaped '\n' ['\\', 'n']
  | carriageReturn : Escaped '\r' ['\\', 'r']
  | tab : Escaped '\t' ['\\', 't']
  | backspace : Escaped '\x08' ['\\', 'b']
  | formFeed : Escaped '\x0c' ['\\', 'f']
  | control {c : Char} (hc : c.toNat < 0x20) (hs : c ∉ ['\n', '\r', '\t', '\x08', '\x0c']) :
    Escaped c ['\\', 'u', '0', '0', Nat.digitChar (c.toNat / 16), Nat.digitChar (c.toNat % 16)]
  | plain {c : Char} (hq : c ≠ '"') (hb : c ≠ '\\') (hc : 0x20 ≤ c.toNat) : Escaped c [c]

def StringText (s : String) (t : List Char) : Prop :=
  ∃ parts, List.Forall₂ Escaped s.toList parts ∧ t = '"' :: parts.flatten ++ ['"']

inductive KeyName : Value → String → Prop
  | null : KeyName .null "null"
  | bool (b : Bool) : KeyName (.bool b) (toString b)
  | int (n : Int) : KeyName (.int n) (toString n)
  | float {x : Binary64} {t : List Char} (h : FloatText x t) : KeyName (.float x) (String.ofList t)
  | str (s : String) : KeyName (.str s) s

def KeyText (k : Value) (t : List Char) : Prop := ∃ s, KeyName k s ∧ StringText s t

/-- JSON text without blanks. What is absent is written as null, and what contains itself has no
text. -/
inductive Compact : Value → List Char → Prop
  | undefined : Compact .undefined "null".toList
  | null : Compact .null "null".toList
  | bool (b : Bool) : Compact (.bool b) (toString b).toList
  | int (n : Int) : Compact (.int n) (toString n).toList
  | float {x : Binary64} {t : List Char} (h : FloatText x t) : Compact (.float x) t
  | str {s : String} {t : List Char} (h : StringText s t) : Compact (.str s) t
  | array {v : Value} {xs : List Value} {ts : List (List Char)} (hv : v.items? = some xs)
    (h : List.Forall₂ Compact xs ts) : Compact v ('[' :: [','].intercalate ts ++ [']'])
  | dict {v : Value} {es : List (Value × Value)} {keys ts : List (List Char)}
    (hv : v.unrolled = .dict es) (hkeys : List.Forall₂ KeyText (es.map Prod.fst) keys)
    (h : List.Forall₂ Compact (es.map Prod.snd) ts) :
    Compact v ('\x7b' :: [','].intercalate (List.zipWith (fun key t => key ++ ':' :: t) keys ts) ++
      ['\x7d'])

variable {c : Char} {s : String} {k v : Value} {t u : List Char} {ts : List (List Char)}

theorem escaped_escapeChar (c : Char) : Escaped c (escapeChar c) := by
  unfold escapeChar
  simp only [beq_iff_eq]
  split
  next h => exact h ▸ .quote
  split
  next h => exact h ▸ .backslash
  split
  next h => exact h ▸ .newline
  split
  next h => exact h ▸ .carriageReturn
  split
  next h => exact h ▸ .tab
  split
  next h => exact h ▸ .backspace
  split
  next h => exact h ▸ .formFeed
  next hq hb hn hr ht hs hf =>
    split
    next hc =>
      rw [hexDigits_control hc]
      exact .control hc (by simp [hn, hr, ht, hs, hf])
    next hc => exact .plain hq hb (Nat.not_lt.mp hc)

theorem escaped_iff : Escaped c t ↔ escapeChar c = t := by
  refine ⟨fun h => ?_, fun h => h ▸ escaped_escapeChar c⟩
  cases h with
  | control hc hs =>
    have hq : c ≠ '"' := by rintro rfl; exact absurd hc (by decide)
    have hb : c ≠ '\\' := by rintro rfl; exact absurd hc (by decide)
    simp only [List.mem_cons, List.not_mem_nil, or_false, not_or] at hs
    simp [escapeChar, hq, hb, hs, hc, hexDigits_control hc]
  | plain hq hb hc =>
    have hs : c ∉ ['\n', '\r', '\t', '\x08', '\x0c'] := by
      simp only [List.mem_cons, List.not_mem_nil, or_false]
      rintro (rfl | rfl | rfl | rfl | rfl) <;> exact absurd hc (by decide)
    simp only [List.mem_cons, List.not_mem_nil, or_false, not_or] at hs
    simp [escapeChar, hq, hb, hs, hc]
  | _ => rfl

theorem stringText_iff : StringText s t ↔ stringChars s.toList = t := by
  have hparts (parts : List (List Char)) :
      List.Forall₂ Escaped s.toList parts ↔ parts = s.toList.map escapeChar := by
    have hescaped : Escaped = fun c t => escapeChar c = t := by
      ext c t
      exact escaped_iff
    rw [hescaped, ← List.forall₂_map_left_iff, List.forall₂_eq_eq_eq, eq_comm]
  simp [StringText, hparts, stringChars, List.flatMap_def, eq_comm]

theorem toString_int (n : Int) : (toString n).toList = intChars n := by
  unfold intChars
  cases n with
  | ofNat m =>
    change (Nat.repr m).toList = _
    simp [Nat.repr]
  | negSucc m =>
    change ("-" ++ Nat.repr (m + 1)).toList = _
    simp [Nat.repr]

theorem commaJoin_eq_intercalate (ts : List (List Char)) : commaJoin ts = [','].intercalate ts := by
  induction ts with
  | nil => rfl
  | cons t ts ih =>
    cases ts with
    | nil => simp [commaJoin]
    | cons u us =>
      rw [commaJoin, ih, List.intercalate_cons_cons, List.append_assoc]
      · rfl
      · nofun

@[elab_as_elim]
theorem Compact.tree_induction {motive : (v : Value) → (t : List Char) → Compact v t → Prop}
    (undefined : motive _ _ .undefined)
    (null : motive _ _ .null)
    (bool : ∀ b, motive _ _ (.bool b))
    (int : ∀ n, motive _ _ (.int n))
    (float : ∀ {x t} (h : FloatText x t), motive _ _ (.float h))
    (str : ∀ {s t} (h : StringText s t), motive _ _ (.str h))
    (array : ∀ {v : Value} {xs ts} (hv : v.items? = some xs) (h : List.Forall₂ Compact xs ts),
      List.Forall₂ (fun x t => ∃ h, motive x t h) xs ts → motive _ _ (.array hv h))
    (dict : ∀ {v : Value} {es keys ts} (hv : v.unrolled = .dict es)
      (hkeys : List.Forall₂ KeyText (es.map Prod.fst) keys)
      (h : List.Forall₂ Compact (es.map Prod.snd) ts),
      List.Forall₂ (fun x t => ∃ h, motive x t h) (es.map Prod.snd) ts →
      motive _ _ (.dict hv hkeys h))
    (h : Compact v t) : motive v t h :=
  @Compact.rec motive (fun xs ts _ => List.Forall₂ (fun x t => ∃ h, motive x t h) xs ts) undefined
    null bool int float str array dict .nil (fun h _ ih ihs => .cons ⟨h, ih⟩ ihs) v t h

theorem eq_of_forall₂ {α β : Type} {R S : α → β → Prop} {as : List α} {bs cs : List β}
    (h : ∀ a b c, R a b → S a c → b = c) (hb : List.Forall₂ R as bs) (hc : List.Forall₂ S as cs) :
    bs = cs := by
  induction hb generalizing cs with
  | nil =>
    cases hc
    rfl
  | cons hr _ ih =>
    obtain ⟨c, cs', hs, hss, rfl⟩ := List.forall₂_cons_left_iff.mp hc
    rw [h _ _ _ hr hs, ih hss]

theorem StringText.unique (ht : StringText s t) (hu : StringText s u) : t = u :=
  (stringText_iff.mp ht).symm.trans (stringText_iff.mp hu)

theorem KeyText.unique (ht : KeyText k t) (hu : KeyText k u) : t = u := by
  obtain ⟨s, hs, ht⟩ := ht
  obtain ⟨s', hs', hu⟩ := hu
  obtain rfl : s = s' := by
    cases hs with
    | float h =>
      cases hs' with
      | float h' => rw [h.unique h']
    | _ =>
      cases hs'
      rfl
  exact ht.unique hu

theorem Compact.array_inv {xs : List Value} (hv : v.items? = some xs) (h : Compact v t) :
    ∃ ts, List.Forall₂ Compact xs ts ∧ '[' :: [','].intercalate ts ++ [']'] = t := by
  cases h with
  | array hv' h =>
    cases hv.symm.trans hv'
    exact ⟨_, h, rfl⟩
  | dict hv' =>
    rw [Value.items?, hv'] at hv
    contradiction
  | _ => contradiction

theorem Compact.dict_inv {es : List (Value × Value)} (hv : v.unrolled = .dict es)
    (h : Compact v t) : ∃ keys ts, List.Forall₂ KeyText (es.map Prod.fst) keys ∧
      List.Forall₂ Compact (es.map Prod.snd) ts ∧ '\x7b' ::
        [','].intercalate (List.zipWith (fun key t => key ++ ':' :: t) keys ts) ++ ['\x7d'] = t := by
  cases h with
  | array hv' h =>
    rw [Value.items?, hv] at hv'
    contradiction
  | dict hv' hkeys h =>
    cases hv.symm.trans hv'
    exact ⟨_, _, hkeys, h, rfl⟩
  | _ => contradiction

theorem Compact.unique (ht : Compact v t) (hu : Compact v u) : t = u := by
  induction ht using Compact.tree_induction generalizing u with
  | array hv _ ih =>
    obtain ⟨us, hus, rfl⟩ := hu.array_inv hv
    rw [eq_of_forall₂ (fun _ _ _ ⟨_, ih⟩ hu => ih hu) ih hus]
  | dict hv hkeys _ ih =>
    obtain ⟨keys', us, hkeys', hus, rfl⟩ := hu.dict_inv hv
    rw [eq_of_forall₂ (fun _ _ _ h => h.unique) hkeys hkeys',
      eq_of_forall₂ (fun _ _ _ ⟨_, ih⟩ hu => ih hu) ih hus]
  | float h =>
    cases hu with
    | float h' => exact h.unique h'
    | _ => contradiction
  | str h =>
    cases hu with
    | str h' => exact h.unique h'
    | _ => contradiction
  | _ => cases hu <;> first | rfl | contradiction

theorem length_le_intercalate {ts : List (List Char)} (h : t ∈ ts) :
    t.length ≤ ([','].intercalate ts).length := by
  induction ts with
  | nil => contradiction
  | cons u us ih =>
    cases us with
    | nil => simp_all
    | cons w ws =>
      rw [List.intercalate_cons_cons, List.length_append, List.length_append]
      rcases List.mem_cons.mp h with rfl | h
      · omega
      · have hle := ih h
        omega

theorem length_le_zipWith {keys : List (List Char)} (hl : keys.length = ts.length) (h : t ∈ ts) :
    t.length ≤
      ([','].intercalate (List.zipWith (fun key t => key ++ ':' :: t) keys ts)).length := by
  obtain ⟨n, hn, rfl⟩ := List.mem_iff_getElem.mp h
  have hz : n < (List.zipWith (fun key t => key ++ ':' :: t) keys ts).length := by
    simpa [hl] using hn
  have hle := length_le_intercalate (List.getElem_mem hz)
  rw [List.getElem_zipWith, List.length_append, List.length_cons] at hle
  omega

end Json

end Conform
