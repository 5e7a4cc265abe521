import Curtail.CommandLine
import Curtail.Json.Settings
import Curtail.Main
import Curtail.Node.Text
import Curtail.Proofs.Building
import Curtail.Proofs.Circle
import Curtail.Proofs.Escapes
import Curtail.Proofs.Flattening
import Curtail.Proofs.InPlace
import Curtail.Proofs.Insertion
import Curtail.Proofs.Integers
import Curtail.Proofs.Journal
import Curtail.Proofs.Json.Rendering
import Curtail.Proofs.Json.Trees
import Curtail.Proofs.LeftAssociative
import Curtail.Proofs.Nesting
import Curtail.Proofs.Padding
import Curtail.Proofs.Positions
import Curtail.Proofs.Progress
import Curtail.Proofs.Remembering
import Curtail.Proofs.Routes
import Curtail.Proofs.Searching
import Curtail.Proofs.Sentences
import Curtail.Proofs.Separation
import Curtail.Proofs.Spans
import Curtail.Proofs.Stalling
