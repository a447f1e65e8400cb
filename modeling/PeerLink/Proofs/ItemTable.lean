import Mathlib.Data.List.DropRight
import Mathlib.Data.List.Sort
import PeerLink.ItemTable
/-!
# The table of items as a function of the events

The table is a function of the events so far. The entry of an item depends only on its *news*: the
events about the item since its last removal. Its value is that of the last state among them, and
its other fields are those of the last definition.

## Main definitions

* `Event.state?`, `Event.definition?`: the value and the definition that an event has for an item.
* `ItemTable.ofEvents`: the table after a list of events.
* `ItemTable.news`: the news of an item.
* `Item.ofNews`: the item with given news.

## Main statements

* `ItemTable.get?_ofEvents`: the entry of a name is the item with its news.
* `ItemTable.ofEvents_eq_of_news`: the table is determined by the news of every item.
-/

namespace PeerLink

/-! ## Values and definitions in events -/

namespace Event

/-- The value of a state event, which may be a missing one. -/
def state? : Event → Option (Option String)
  | itemState _ value | itemStateChanged _ value _ | groupItemStateChanged _ _ value _ => some value
  | _ => none

/-- The definition of an item in an event. -/
def definition? : Event → Option ItemDefinition
  | itemAdded d | itemUpdated d => some d
  | _ => none

/-- Whether an event has a value or a definition. -/
def isNews (e : Event) : Bool := e.state?.isSome || e.definition?.isSome

/-- The change that an event makes to its item. -/
def change? (e : Event) : Option (Item → Item) :=
  (e.state?.map Item.withValue).or (e.definition?.map Item.withDefinition)

theorem isSome_change? (e : Event) : e.change?.isSome = e.isNews := by
  simp [change?, isNews]

end Event

/-- The item with the given news. Its value is that of the last state, and its other fields are
those of the last definition. -/
def Item.ofNews (name : String) (news : List Event) : Item :=
  let definition := (news.filterMap Event.definition?).getLast?
  { name
    itemType := definition.map ItemDefinition.itemType
    value := (news.filterMap Event.state?).getLast?.join
    tags := definition.elim .empty ItemDefinition.tags
    groups := definition.elim .empty ItemDefinition.groups }

theorem Item.ofNews_concat {e : Event} {change : Item → Item} (h : e.change? = some change)
    (name : String) (news : List Event) :
    ofNews name (news ++ [e]) = change (ofNews name news) := by
  cases e <;> cases h <;>
    simp [ofNews, withValue, withDefinition, Event.state?, Event.definition?]

namespace ItemTable

/-! ## Tables in order -/

/-- The items are in strictly ascending order of their names. -/
def Ordered (items : List Item) : Prop := items.Pairwise fun i j => i.name < j.name

section Update

variable {name : String} {items : List Item} {change : Item → Item}

theorem find?_eq_none (h : ∀ i ∈ items, name < i.name) :
    items.find? (·.name == name) = none := by
  refine List.find?_eq_none.2 fun i hi hname => ?_
  rw [beq_iff_eq] at hname
  exact String.lt_irrefl name (hname ▸ h i hi)

theorem mem_update (hchange : ∀ i, (change i).name = i.name) {j : Item}
    (h : j ∈ update name change items) : j.name = name ∨ j ∈ items := by
  induction items with
  | nil => simp_all [update]
  | cons i rest ih => grind [update]

theorem ordered_update (hchange : ∀ i, (change i).name = i.name) (h : Ordered items) :
    Ordered (update name change items) := by
  induction items with
  | nil => exact List.pairwise_singleton _ _
  | cons i rest ih =>
    obtain ⟨hi, hrest⟩ := List.pairwise_cons.1 h
    rw [update]
    split
    · next hlt =>
      refine List.pairwise_cons.2 ⟨fun j hj => ?_, h⟩
      rw [hchange]
      rcases List.mem_cons.1 hj with rfl | hj
      · exact hlt
      · exact String.lt_trans hlt (hi j hj)
    · split
      · exact List.pairwise_cons.2 ⟨fun j hj => (hchange i).symm ▸ hi j hj, hrest⟩
      · next hlt hne =>
        refine List.pairwise_cons.2 ⟨fun j hj => ?_, ih hrest⟩
        rcases mem_update hchange hj with rfl | hj
        · exact Std.lt_of_le_of_ne (String.not_lt.1 hlt) (Ne.symm hne)
        · exact hi j hj

/-- An update changes the item of the name, or it adds the change of a new item. -/
theorem find?_update (hchange : ∀ i, (change i).name = i.name) (h : Ordered items) (n : String) :
    (update name change items).find? (·.name == n) =
      if name = n then some (change ((items.find? (·.name == n)).getD { name := n }))
      else items.find? (·.name == n) := by
  induction items with
  | nil => by_cases hn : name = n <;> simp [update, hchange, hn]
  | cons i rest ih =>
    obtain ⟨hi, hrest⟩ := List.pairwise_cons.1 h
    rw [update]
    split
    · next hlt =>
      have hnone : (i :: rest).find? (·.name == name) = none := find?_eq_none fun j hj => by
        rcases List.mem_cons.1 hj with rfl | hj
        · exact hlt
        · exact String.lt_trans hlt (hi j hj)
      by_cases hn : name = n
      · subst hn
        rw [if_pos rfl, hnone]
        simp [hchange]
      · simp [hchange, hn]
    · split
      · next hname => by_cases hn : name = n <;> simp [hchange, ← hname, hn]
      · next hne =>
        by_cases hin : i.name = n
        · have hn : name ≠ n := fun e => hne (e.trans hin.symm)
          simp [hin, hn]
        · simp [hin, ih hrest]

theorem find?_filter (n : String) :
    (items.filter (·.name != name)).find? (·.name == n) =
      if name = n then none else items.find? (·.name == n) := by
  by_cases hn : name = n
  · subst hn
    simp
  · rw [if_neg hn, List.find?_filter]
    congr 1
    funext i
    by_cases hi : i.name = n <;> simp_all [Ne.symm]

end Update

/-- An item of an ordered table is the entry of its name. -/
theorem mem_items_iff {t : ItemTable} (h : Ordered t.items) {i : Item} :
    i ∈ t.items ↔ t.get? i.name = some i := by
  refine ⟨fun hi => ?_, List.mem_of_find?_eq_some⟩
  obtain ⟨before, after, hitems⟩ := List.append_of_mem hi
  rw [Ordered, hitems] at h
  have hbefore : ∀ j ∈ before, ¬(j.name == i.name) = true := fun j hj hname => by
    have hlt := (List.pairwise_append.1 h).2.2 j hj i List.mem_cons_self
    exact String.lt_irrefl _ (beq_iff_eq.1 hname ▸ hlt)
  rw [get?, hitems, List.find?_append, List.find?_eq_none.2 hbefore]
  simp

/-- Ordered tables with the same entries are equal. -/
theorem eq_of_get? {t t' : ItemTable} (h : Ordered t.items) (h' : Ordered t'.items)
    (hget : ∀ n, t.get? n = t'.get? n) : t = t' := by
  have : Std.Irrefl fun i j : Item => i.name < j.name := ⟨fun i => String.lt_irrefl i.name⟩
  have : Std.Antisymm fun i j : Item => i.name < j.name :=
    ⟨fun i j hij hji => (String.lt_irrefl _ (String.lt_trans hij hji)).elim⟩
  have hitems : t.items = t'.items := List.Pairwise.eq_of_mem_iff h h' fun i => by
    rw [mem_items_iff h, mem_items_iff h', hget]
  cases t
  cases t'
  exact congrArg _ hitems

/-! ## One event -/

section Apply

variable {t : ItemTable} {e : Event} {change : Item → Item}

theorem name_of_change? (h : e.change? = some change) (i : Item) : (change i).name = i.name := by
  cases e <;> cases h <;> rfl

theorem apply_of_some (h : e.change? = some change) (t : ItemTable) :
    t.apply e = ⟨update e.name change t.items⟩ := by
  cases e <;> cases h <;> rfl

theorem apply_of_removed (h : e.kind = .itemRemoved) (t : ItemTable) :
    t.apply e = ⟨t.items.filter (·.name != e.name)⟩ := by
  cases e <;> cases h
  rfl

theorem apply_of_none (h : e.change? = none) (hkind : e.kind ≠ .itemRemoved) (t : ItemTable) :
    t.apply e = t := by
  cases e with
  | itemRemoved name => exact absurd rfl hkind
  | _ => first | rfl | cases h

theorem ordered_apply (h : Ordered t.items) (e : Event) : Ordered (t.apply e).items := by
  by_cases hkind : e.kind = .itemRemoved
  · rw [apply_of_removed hkind]
    exact h.filter _
  · cases hchange : e.change? with
    | none => rwa [apply_of_none hchange hkind]
    | some change =>
      rw [apply_of_some hchange]
      exact ordered_update (name_of_change? hchange) h

theorem get?_apply_of_some (h : Ordered t.items) (hchange : e.change? = some change) (n : String) :
    (t.apply e).get? n =
      if e.name = n then some (change ((t.get? n).getD { name := n })) else t.get? n := by
  rw [apply_of_some hchange]
  exact find?_update (name_of_change? hchange) h n

theorem get?_apply_of_removed (hkind : e.kind = .itemRemoved) (n : String) :
    (t.apply e).get? n = if e.name = n then none else t.get? n := by
  rw [apply_of_removed hkind]
  exact find?_filter n

end Apply

/-! ## Whole histories -/

/-- The table after a list of events. -/
def ofEvents (es : List Event) : ItemTable := es.foldl apply {}

theorem ofEvents_concat (es : List Event) (e : Event) :
    ofEvents (es ++ [e]) = (ofEvents es).apply e :=
  List.foldl_concat ..

theorem ordered_ofEvents (es : List Event) : Ordered (ofEvents es).items := by
  induction es using List.reverseRecOn with
  | nil => exact .nil
  | append_singleton es e ih => exact ofEvents_concat es e ▸ ordered_apply ih e

/-- The events about an item since its last removal. -/
def news (name : String) (es : List Event) : List Event :=
  ((es.filter fun e => e.name = name).rtakeWhile fun e => e.kind ≠ .itemRemoved).filter
    Event.isNews

section News

variable {n : String} {es : List Event} {e : Event}

theorem news_concat_of_ne (h : e.name ≠ n) : news n (es ++ [e]) = news n es := by
  simp [news, h]

theorem news_concat_of_removed (h : e.name = n) (hkind : e.kind = .itemRemoved) :
    news n (es ++ [e]) = [] := by
  simp [news, h, hkind]

theorem news_concat_of_eq (h : e.name = n) (hkind : e.kind ≠ .itemRemoved) :
    news n (es ++ [e]) = news n es ++ [e].filter Event.isNews := by
  simp [news, h, hkind]

/-- The entry of a name is the item with its news, if there are any. -/
theorem get?_ofEvents (n : String) (es : List Event) :
    (ofEvents es).get? n =
      if news n es = [] then none else some (Item.ofNews n (news n es)) := by
  induction es using List.reverseRecOn with
  | nil => rfl
  | append_singleton es e ih =>
    rw [ofEvents_concat]
    by_cases hkind : e.kind = .itemRemoved
    · rw [get?_apply_of_removed hkind]
      by_cases hn : e.name = n
      · rw [if_pos hn, news_concat_of_removed hn hkind, if_pos rfl]
      · rw [if_neg hn, news_concat_of_ne hn, ih]
    · cases hchange : e.change? with
      | none =>
        have hnews : e.isNews = false := by rw [← e.isSome_change?, hchange]; rfl
        rw [apply_of_none hchange hkind, ih]
        by_cases hn : e.name = n
        · rw [news_concat_of_eq hn hkind]
          simp [hnews]
        · rw [news_concat_of_ne hn]
      | some change =>
        have hnews : e.isNews = true := by rw [← e.isSome_change?, hchange]; rfl
        rw [get?_apply_of_some (ordered_ofEvents es) hchange]
        by_cases hn : e.name = n
        · have hitem : ((ofEvents es).get? n).getD { name := n } = Item.ofNews n (news n es) := by
            rw [ih]
            split
            · next hnil => rw [hnil]; rfl
            · rfl
          have hcons : news n (es ++ [e]) = news n es ++ [e] := by
            rw [news_concat_of_eq hn hkind, List.filter_singleton, hnews]
            rfl
          rw [if_pos hn, hitem, hcons, Item.ofNews_concat hchange, if_neg (by simp)]
        · rw [if_neg hn, news_concat_of_ne hn, ih]

theorem contains_ofEvents (n : String) (es : List Event) :
    (ofEvents es).contains n = true ↔ news n es ≠ [] := by
  rw [contains, get?_ofEvents]
  split <;> simp_all

theorem value?_ofEvents (n : String) (es : List Event) :
    (ofEvents es).value? n = ((news n es).filterMap Event.state?).getLast?.join := by
  rw [value?, get?_ofEvents]
  split
  · next hnil => rw [hnil]; rfl
  · rfl

theorem mem_names {t : ItemTable} {n : String} : n ∈ t.names ↔ t.contains n = true := by
  simp [names, contains, get?]

/-- The table is determined by the news of its items. -/
theorem ofEvents_eq_of_news {es es' : List Event} (h : ∀ n, news n es = news n es') :
    ofEvents es = ofEvents es' :=
  eq_of_get? (ordered_ofEvents es) (ordered_ofEvents es') fun n => by
    rw [get?_ofEvents, get?_ofEvents, h]

/-- Exchanging neighbours about different items does not change the news of an item. -/
theorem news_swap {e e' : Event} (h : e.name ≠ e'.name) (n : String) (es rest : List Event) :
    news n (es ++ e :: e' :: rest) = news n (es ++ e' :: e :: rest) := by
  have hfilter : (e :: e' :: rest).filter (fun e => e.name = n) =
      (e' :: e :: rest).filter fun e => e.name = n := by
    by_cases he : e.name = n
    · have he' : e'.name ≠ n := fun e' => h (he.trans e'.symm)
      simp [he, he']
    · simp [List.filter_cons, he]
  rw [news, news, List.filter_append, List.filter_append, hfilter]

end News

/-- The table has exactly the items with news since their last removal, each with the value of its
last state and the fields of its last definition. Its names are strictly ascending. Two lists of
events with the same news of every item give the same table, in particular if neighbours about
different items are exchanged. -/
theorem table_of_events (es : List Event) :
    (∀ n, (ofEvents es).contains n = true ↔ news n es ≠ []) ∧
    (∀ n, news n es ≠ [] → (ofEvents es).get? n = some (Item.ofNews n (news n es))) ∧
    (∀ n, (ofEvents es).value? n = ((news n es).filterMap Event.state?).getLast?.join) ∧
    (ofEvents es).names.Pairwise (· < ·) ∧
    (∀ n, n ∈ (ofEvents es).names ↔ (ofEvents es).contains n = true) ∧
    (ofEvents es).size = (ofEvents es).names.length ∧
    (∀ es', (∀ n, news n es = news n es') → ofEvents es = ofEvents es') ∧
    ∀ e e' rest, e.name ≠ e'.name →
      ofEvents (es ++ e :: e' :: rest) = ofEvents (es ++ e' :: e :: rest) := by
  refine ⟨fun n => contains_ofEvents n es, fun n hn => ?_, fun n => value?_ofEvents n es, ?_,
    fun n => mem_names, (List.length_map _).symm, fun es' h => ofEvents_eq_of_news h,
    fun e e' rest h => ofEvents_eq_of_news fun n => news_swap h n es rest⟩
  · rw [get?_ofEvents, if_neg hn]
  · exact List.pairwise_map.2 (ordered_ofEvents es)

/-- After a removal the entry has neither the old definition nor the old value. -/
theorem table_of_events_demo :
    let switch : ItemDefinition := ⟨"A", "Switch", .ofList ["old"], .empty⟩
    let dimmer : ItemDefinition := ⟨"A", "Dimmer", .empty, .ofList ["Lights"]⟩
    let es : List Event := [.itemAdded switch, .itemState "A" (some "ON"), .itemRemoved "A",
      .itemState "A" (some "7"), .itemUpdated dimmer, .groupItemStateChanged "A" "M" none none]
    let command : Event := .itemCommand "A" (some "ON")
    let state : Event := .itemStateChanged "B" (some "1") none
    news "A" es ≠ [] ∧
      (ofEvents es).get? "A" = some ⟨"A", some "Dimmer", none, .empty, .ofList ["Lights"]⟩ ∧
      command.name ≠ state.name ∧
      ofEvents (es ++ command :: state :: es) = ofEvents (es ++ state :: command :: es) := by
  intro switch dimmer es command state
  obtain ⟨-, hget, -, -, -, -, -, hswap⟩ := table_of_events es
  have hnews : news "A" es ≠ [] := by decide
  have hname : command.name ≠ state.name := by decide
  exact ⟨hnews, (hget "A" hnews).trans rfl, hname, hswap command state es hname⟩

end ItemTable

end PeerLink
