/-
The JSON text of a whole document (`rawDocToJSON`).

* `rawDocToJSON_mirrors` — the text of every document is a JSON text, of the tree with the
  same keys in the same order and the values of `toJson`, and of no other tree; the characters
  of a string that is valid UTF-8 are read back as they were.
-/
import PeerDB.Mongo.DocumentKey

namespace Mongo

def Elements.keys : Elements → List GoString
  | .nil => []
  | .cons key _ rest => key :: rest.keys

def Elements.values : Elements → List Bson
  | .nil => []
  | .cons _ value rest => value :: rest.values

theorem members_eq_zip (F : Formats) : ∀ doc : Elements,
    members F doc = (doc.keys.map GoString.chars).zip (doc.values.map (toJson F))
  | .nil => rfl
  | .cons key value rest => by
    rw [members, members_eq_zip F rest]
    rfl

theorem elems_eq_map (F : Formats) : ∀ arr : Elements, elems F arr = arr.values.map (toJson F)
  | .nil => rfl
  | .cons key value rest => by
    rw [elems, elems_eq_map F rest]
    rfl

/-- **Documents become faithful JSON.**  What is written for a document, nested ones and arrays
included, is a JSON text of one tree only: the keys in order, each with the tree of its value,
which is for an array the trees of its values in order.  A string or key that is valid UTF-8
is read back as it was. -/
theorem rawDocToJSON_mirrors {F : Formats} (hF : F.Faithful) (doc : Elements) :
    (∀ j, Json.Text j (rawDocToJSON F doc) ↔
      j = .obj ((doc.keys.map GoString.chars).zip (doc.values.map (toJson F)))) ∧
    (∀ sub, toJson F (.document sub) =
      .obj ((sub.keys.map GoString.chars).zip (sub.values.map (toJson F)))) ∧
    (∀ arr, toJson F (.array arr) = .arr (arr.values.map (toJson F))) ∧
    ∀ s : List Char, (GoString.ofChars s).chars = s ∧
      toJson F (.string (GoString.ofChars s)) = .str s := by
  have htext : Json.Text (.obj ((doc.keys.map GoString.chars).zip (doc.values.map (toJson F))))
      (rawDocToJSON F doc) := by
    have h := rawValueToJSON_text hF (.document doc)
    rw [toJson, members_eq_zip] at h
    exact h
  refine ⟨fun j => ⟨fun h => Json.text_injective h htext, fun h => h ▸ htext⟩, ?_, ?_, ?_⟩
  · intro sub
    rw [toJson, members_eq_zip]
  · intro arr
    rw [toJson, elems_eq_map]
  · intro s
    rw [toJson, GoString.chars_ofChars]
    exact ⟨rfl, rfl⟩

theorem rawDocToJSON_mirrors_list :
    Json.Text (.obj [("k".toList, .arr [.num ['1'], .str "é".toList])])
      (rawDocToJSON sampleFormats (.cons (GoString.ofChars "k".toList) (.array
        (.cons [] (.int32 1) (.cons [] (.string (GoString.ofChars "é".toList)) .nil))) .nil)) :=
  ((rawDocToJSON_mirrors sampleFormats_faithful _).1 _).mpr rfl

end Mongo
