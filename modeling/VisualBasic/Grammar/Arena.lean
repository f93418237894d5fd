import VisualBasic.Grammar.Production
import VisualBasic.Syntax.Cell

/-!
# Building in a vector

Productions on a vector of nodes. Every finished node is put at its end. What is tried and fails may
have left nodes there; going back cuts the vector to the length that it had at the checkpoint, while
the indices that a node under construction has gathered stay as they are.
-/

namespace VisualBasic

instance : Store Arena where
  size b := b.nodes.size
  cut n b := { b with nodes := b.nodes.take n }
  runOut b := b

instance : Builder Arena NodeId where
  leaf kind span token b := b.push { kind, span, firstToken := token, token := some token }
  error span first b :=
    b.push { kind := .rule .error, span, firstToken := first, flags := { isError := true } }
  start b := { b with ids := [], roles := [] }
  finish kind span first isPartial inner outer :=
    { outer with nodes := inner.nodes }.push
      { kind, span, firstToken := first
        children := inner.ids.reverse
        fields := inner.roles.reverse
        flags := { isPartial, hasError := inner.ids.any inner.troubled } }
  drop inner outer := { outer with nodes := inner.nodes }
  attach id b := { b with ids := id :: b.ids }
  attachIn f id b := { b with ids := id :: b.ids, roles := (f, id) :: b.roles }
  firstToken b id := b.nodes[id]!.firstToken
  kind b id := b.nodes[id]!.kind
  back now before := now.restore before.checkpoint

end VisualBasic
