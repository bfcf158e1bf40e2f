/-!
# Sources of words

A source hands out words of 64 bits and is a plain value: drawing a word gives the source that is
left. A list of words is a source that runs dry.
-/

namespace DiceEngine

/-- A type of sources. -/
class WordSource (σ : Type) where
  /-- The next word and the source behind it, or nothing once the source is dry. -/
  next : σ → Option (UInt64 × σ)
  /-- So many words in a row show every word that the source has still to give: a dry end counts
  as one, and what comes later repeats what came. -/
  horizon : σ → Nat

instance : WordSource (List UInt64) where
  next
    | [] => none
    | w :: ws => some (w, ws)
  horizon ws := ws.length + 1

end DiceEngine
