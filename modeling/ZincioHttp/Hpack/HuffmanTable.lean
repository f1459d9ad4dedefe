import Mathlib.Data.Nat.Notation

/-! The Huffman data of HPACK. `codes` is the code table (bit length and code,
entry 256 is EOS); `huffDfa` is the decoding automaton that reads four bits at a
time. -/

namespace ZincioHttp.Hpack.Huffman

/-- `CODES` in rows of sixteen: bit length and code of each symbol. -/
def codes : List (List (ℕ × ℕ)) :=
  [[(13, 0x1ff8), (23, 0x7fffd8), (28, 0xfffffe2), (28, 0xfffffe3), (28, 0xfffffe4),
    (28, 0xfffffe5), (28, 0xfffffe6), (28, 0xfffffe7), (28, 0xfffffe8), (24, 0xffffea),
    (30, 0x3ffffffc), (28, 0xfffffe9), (28, 0xfffffea), (30, 0x3ffffffd), (28, 0xfffffeb),
    (28, 0xfffffec)],
   [(28, 0xfffffed), (28, 0xfffffee), (28, 0xfffffef), (28, 0xffffff0), (28, 0xffffff1),
    (28, 0xffffff2), (30, 0x3ffffffe), (28, 0xffffff3), (28, 0xffffff4), (28, 0xffffff5),
    (28, 0xffffff6), (28, 0xffffff7), (28, 0xffffff8), (28, 0xffffff9), (28, 0xffffffa),
    (28, 0xffffffb)],
   [(6, 0x14), (10, 0x3f8), (10, 0x3f9), (12, 0xffa), (13, 0x1ff9), (6, 0x15), (8, 0xf8),
    (11, 0x7fa), (10, 0x3fa), (10, 0x3fb), (8, 0xf9), (11, 0x7fb), (8, 0xfa), (6, 0x16),
    (6, 0x17), (6, 0x18)],
   [(5, 0x0), (5, 0x1), (5, 0x2), (6, 0x19), (6, 0x1a), (6, 0x1b), (6, 0x1c), (6, 0x1d),
    (6, 0x1e), (6, 0x1f), (7, 0x5c), (8, 0xfb), (15, 0x7ffc), (6, 0x20), (12, 0xffb),
    (10, 0x3fc)],
   [(13, 0x1ffa), (6, 0x21), (7, 0x5d), (7, 0x5e), (7, 0x5f), (7, 0x60), (7, 0x61), (7, 0x62),
    (7, 0x63), (7, 0x64), (7, 0x65), (7, 0x66), (7, 0x67), (7, 0x68), (7, 0x69), (7, 0x6a)],
   [(7, 0x6b), (7, 0x6c), (7, 0x6d), (7, 0x6e), (7, 0x6f), (7, 0x70), (7, 0x71), (7, 0x72),
    (8, 0xfc), (7, 0x73), (8, 0xfd), (13, 0x1ffb), (19, 0x7fff0), (13, 0x1ffc), (14, 0x3ffc),
    (6, 0x22)],
   [(15, 0x7ffd), (5, 0x3), (6, 0x23), (5, 0x4), (6, 0x24), (5, 0x5), (6, 0x25), (6, 0x26),
    (6, 0x27), (5, 0x6), (7, 0x74), (7, 0x75), (6, 0x28), (6, 0x29), (6, 0x2a), (5, 0x7)],
   [(6, 0x2b), (7, 0x76), (6, 0x2c), (5, 0x8), (5, 0x9), (6, 0x2d), (7, 0x77), (7, 0x78),
    (7, 0x79), (7, 0x7a), (7, 0x7b), (15, 0x7ffe), (11, 0x7fc), (14, 0x3ffd), (13, 0x1ffd),
    (28, 0xffffffc)],
   [(20, 0xfffe6), (22, 0x3fffd2), (20, 0xfffe7), (20, 0xfffe8), (22, 0x3fffd3), (22, 0x3fffd4),
    (22, 0x3fffd5), (23, 0x7fffd9), (22, 0x3fffd6), (23, 0x7fffda), (23, 0x7fffdb),
    (23, 0x7fffdc), (23, 0x7fffdd), (23, 0x7fffde), (24, 0xffffeb), (23, 0x7fffdf)],
   [(24, 0xffffec), (24, 0xffffed), (22, 0x3fffd7), (23, 0x7fffe0), (24, 0xffffee),
    (23, 0x7fffe1), (23, 0x7fffe2), (23, 0x7fffe3), (23, 0x7fffe4), (21, 0x1fffdc),
    (22, 0x3fffd8), (23, 0x7fffe5), (22, 0x3fffd9), (23, 0x7fffe6), (23, 0x7fffe7),
    (24, 0xffffef)],
   [(22, 0x3fffda), (21, 0x1fffdd), (20, 0xfffe9), (22, 0x3fffdb), (22, 0x3fffdc),
    (23, 0x7fffe8), (23, 0x7fffe9), (21, 0x1fffde), (23, 0x7fffea), (22, 0x3fffdd),
    (22, 0x3fffde), (24, 0xfffff0), (21, 0x1fffdf), (22, 0x3fffdf), (23, 0x7fffeb),
    (23, 0x7fffec)],
   [(21, 0x1fffe0), (21, 0x1fffe1), (22, 0x3fffe0), (21, 0x1fffe2), (23, 0x7fffed),
    (22, 0x3fffe1), (23, 0x7fffee), (23, 0x7fffef), (20, 0xfffea), (22, 0x3fffe2),
    (22, 0x3fffe3), (22, 0x3fffe4), (23, 0x7ffff0), (22, 0x3fffe5), (22, 0x3fffe6),
    (23, 0x7ffff1)],
   [(26, 0x3ffffe0), (26, 0x3ffffe1), (20, 0xfffeb), (19, 0x7fff1), (22, 0x3fffe7),
    (23, 0x7ffff2), (22, 0x3fffe8), (25, 0x1ffffec), (26, 0x3ffffe2), (26, 0x3ffffe3),
    (26, 0x3ffffe4), (27, 0x7ffffde), (27, 0x7ffffdf), (26, 0x3ffffe5), (24, 0xfffff1),
    (25, 0x1ffffed)],
   [(19, 0x7fff2), (21, 0x1fffe3), (26, 0x3ffffe6), (27, 0x7ffffe0), (27, 0x7ffffe1),
    (26, 0x3ffffe7), (27, 0x7ffffe2), (24, 0xfffff2), (21, 0x1fffe4), (21, 0x1fffe5),
    (26, 0x3ffffe8), (26, 0x3ffffe9), (28, 0xffffffd), (27, 0x7ffffe3), (27, 0x7ffffe4),
    (27, 0x7ffffe5)],
   [(20, 0xfffec), (24, 0xfffff3), (20, 0xfffed), (21, 0x1fffe6), (22, 0x3fffe9), (21, 0x1fffe7),
    (21, 0x1fffe8), (23, 0x7ffff3), (22, 0x3fffea), (22, 0x3fffeb), (25, 0x1ffffee),
    (25, 0x1ffffef), (24, 0xfffff4), (24, 0xfffff5), (26, 0x3ffffea), (23, 0x7ffff4)],
   [(26, 0x3ffffeb), (27, 0x7ffffe6), (26, 0x3ffffec), (26, 0x3ffffed), (27, 0x7ffffe7),
    (27, 0x7ffffe8), (27, 0x7ffffe9), (27, 0x7ffffea), (27, 0x7ffffeb), (28, 0xffffffe),
    (27, 0x7ffffec), (27, 0x7ffffed), (27, 0x7ffffee), (27, 0x7ffffef), (27, 0x7fffff0),
    (26, 0x3ffffee)],
   [(30, 0x3fffffff)]]

/-- `HUFF_DFA`, one word for each state, in rows of sixteen. A word holds the transitions on the
nibbles 0 to 15 from its highest digits down, five digits each: next state (2), flags (1)
and symbol (2). Flag 4 rejects, 2 emits the symbol, 1 allows the input to end. -/
def huffDfa : List (List ℕ) :=
  [[0x040000500007000080000b0000c0001000013000190001c00020000230002a000310003900040100,
    0x003300033100332003610036300365003690036f00373003740d0000e00011000120001400015000,
    0x01230163300123116331012321633201261163610126316363012651636501269163690126f1636f,
    0x02230092301723028330022310923117231283310223209232172322833202261092611726128361,
    0x03230062300a2300f230182301f230292303833003231062310a2310f231182311f2312923138331,
    0x03232062320a2320f232182321f232292323833203261062610a2610f261182611f2612926138361,
    0x0226309263172632836302265092651726528365022690926917269283690226f0926f1726f2836f,
    0x03263062630a2630f263182631f263292633836303265062650a2650f265182651f2652926538365,
    0x03269062690a2690f269182691f26929269383690326f0626f0a26f0f26f1826f1f26f2926f3836f,
    0x0127316373012741637400320003250032d0032e0032f00333003340033500336003370033800339,
    0x0227309273172732837302274092741727428374012201632001225163250122d1632d0122e1632e,
    0x03273062730a2730f273182731f273292733837303274062740a2740f274182741f2742927438374,
    0x02220092201722028320022250922517225283250222d0922d1722d2832d0222e0922e1722e2832e,
    0x03220062200a2200f220182201f220292203832003225062250a2250f225182251f2252922538325,
    0x0322d0622d0a22d0f22d1822d1f22d2922d3832d0322e0622e0a22e0f22e1822e1f22e2922e3832e,
    0x0122f1632f0123316333012341633401235163350123616336012371633701238163380123916339],
   [0x0222f0922f1722f2832f022330923317233283330223409234172342833402235092351723528335,
    0x0322f0622f0a22f0f22f1822f1f22f2922f3832f03233062330a2330f233182331f2332923338333,
    0x03234062340a2340f234182341f234292343833403235062350a2350f235182351f2352923538335,
    0x02236092361723628336022370923717237283370223809238172382833802239092391723928339,
    0x03236062360a2360f236182361f236292363833603237062370a2370f237182371f2372923738337,
    0x03238062380a2380f238182381f238292383833803239062390a2390f239182391f2392923938339,
    0x1a0001b0001d0001e000210002200024000250002b0002e00032000350003a0003d0004100044100,
    0x0033d003410035f00362003640036600367003680036c0036d0036e0037000372003752600027000,
    0x0123d1633d01241163410125f1635f01262163620126416364012661636601267163670126816368,
    0x0223d0923d1723d2833d022410924117241283410225f0925f1725f2835f02262092621726228362,
    0x0323d0623d0a23d0f23d1823d1f23d2923d3833d03241062410a2410f241182411f2412924138341,
    0x0325f0625f0a25f0f25f1825f1f25f2925f3835f03262062620a2620f262182621f2622926238362,
    0x02264092641726428364022660926617266283660226709267172672836702268092681726828368,
    0x03264062640a2640f264182641f264292643836403266062660a2660f266182661f2662926638366,
    0x03267062670a2670f267182671f267292673836703268062680a2680f268182681f2682926838368,
    0x0126c1636c0126d1636d0126e1636e0127016370012721637201275163750033a003420034300344],
   [0x0226c0926c1726c2836c0226d0926d1726d2836d0226e0926e1726e2836e02270092701727028370,
    0x0326c0626c0a26c0f26c1826c1f26c2926c3836c0326d0626d0a26d0f26d1826d1f26d2926d3836d,
    0x0326e0626e0a26e0f26e1826e1f26e2926e3836e03270062700a2700f270182701f2702927038370,
    0x02272092721727228372022750927517275283750123a1633a012421634201243163430124416344,
    0x03272062720a2720f272182721f272292723837203275062750a2750f275182751f2752927538375,
    0x0223a0923a1723a2833a022420924217242283420224309243172432834302244092441724428344,
    0x0323a0623a0a23a0f23a1823a1f23a2923a3833a03242062420a2420f242182421f2422924238342,
    0x03243062430a2430f243182431f243292433834303244062440a2440f244182441f2442924438344,
    0x2c0002d0002f00030000330003400036000370003b0003c0003e0003f00042000430004500048100,
    0x00345003460034700348003490034a0034b0034c0034d0034e0034f0035000351003520035300354,
    0x012451634501246163460124716347012481634801249163490124a1634a0124b1634b0124c1634c,
    0x02245092451724528345022460924617246283460224709247172472834702248092481724828348,
    0x03245062450a2450f245182451f245292453834503246062460a2460f246182461f2462924638346,
    0x03247062470a2470f247182471f247292473834703248062480a2480f248182481f2482924838348,
    0x022490924917249283490224a0924a1724a2834a0224b0924b1724b2834b0224c0924c1724c2834c,
    0x03249062490a2490f249182491f24929249383490324a0624a0a24a0f24a1824a1f24a2924a3834a],
   [0x0324b0624b0a24b0f24b1824b1f24b2924b3834b0324c0624c0a24c0f24c1824c1f24c2924c3834c,
    0x0124d1634d0124e1634e0124f1634f01250163500125116351012521635201253163530125416354,
    0x0224d0924d1724d2834d0224e0924e1724e2834e0224f0924f1724f2834f02250092501725028350,
    0x0324d0624d0a24d0f24d1824d1f24d2924d3834d0324e0624e0a24e0f24e1824e1f24e2924e3834e,
    0x0324f0624f0a24f0f24f1824f1f24f2924f3834f03250062500a2500f250182501f2502925038350,
    0x02251092511725128351022520925217252283520225309253172532835302254092541725428354,
    0x03251062510a2510f251182511f251292513835103252062520a2520f252182521f2522925238352,
    0x03253062530a2530f253182531f253292533835303254062540a2540f254182541f2542925438354,
    0x003550035600357003590036a0036b00371003760037700378003790037a4600047000490004a100,
    0x01255163550125616356012571635701259163590126a1636a0126b1636b01271163710127616376,
    0x02255092551725528355022560925617256283560225709257172572835702259092591725928359,
    0x03255062550a2550f255182551f255292553835503256062560a2560f256182561f2562925638356,
    0x03257062570a2570f257182571f257292573835703259062590a2590f259182591f2592925938359,
    0x0226a0926a1726a2836a0226b0926b1726b2836b0227109271172712837102276092761727628376,
    0x0326a0626a0a26a0f26a1826a1f26a2926a3836a0326b0626b0a26b0f26b1826b1f26b2926b3836b,
    0x03271062710a2710f271182711f271292713837103276062760a2760f276182761f2762927638376],
   [0x0127716377012781637801279163790127a1637a003260032a0032c0033b003580035a4b0004e000,
    0x0227709277172772837702278092781727828378022790927917279283790227a0927a1727a2837a,
    0x03277062770a2770f277182771f277292773837703278062780a2780f278182781f2782927838378,
    0x03279062790a2790f279182791f27929279383790327a0627a0a27a0f27a1827a1f27a2927a3837a,
    0x01226163260122a1632a0122c1632c0123b1633b01258163580125a1635a4c0004d0004f00051000,
    0x022260922617226283260222a0922a1722a2832a0222c0922c1722c2832c0223b0923b1723b2833b,
    0x03226062260a2260f226182261f22629226383260322a0622a0a22a0f22a1822a1f22a2922a3832a,
    0x0322c0622c0a22c0f22c1822c1f22c2922c3832c0323b0623b0a23b0f23b1823b1f23b2923b3833b,
    0x022580925817258283580225a0925a1725a2835a003210032200328003290033f500005200054000,
    0x03258062580a2580f258182581f25829258383580325a0625a0a25a0f25a1825a1f25a2925a3835a,
    0x01221163210122216322012281632801229163290123f1633f003270032b0037c530005500058000,
    0x02221092211722128321022220922217222283220222809228172282832802229092291722928329,
    0x03221062210a2210f221182211f221292213832103222062220a2220f222182221f2222922238322,
    0x03228062280a2280f228182281f228292283832803229062290a2290f229182291f2292922938329,
    0x0223f0923f1723f2833f01227163270122b1632b0127c1637c003230033e5600057000590005a000,
    0x0323f0623f0a23f0f23f1823f1f23f2923f3833f022270922717227283270222b0922b1722b2832b],
   [0x03227062270a2270f227182271f22729227383270322b0622b0a22b0f22b1822b1f22b2922b3832b,
    0x0227c0927c1727c2837c01223163230123e1633e0030000324003400035b0035d0037e5b0005c000,
    0x0327c0627c0a27c0f27c1827c1f27c2927c3837c022230922317223283230223e0923e1723e2833e,
    0x03223062230a2230f223182231f22329223383230323e0623e0a23e0f23e1823e1f23e2923e3833e,
    0x0120016300012241632401240163400125b1635b0125d1635d0127e1637e0035e0037d5d0005e000,
    0x0220009200172002830002224092241722428324022400924017240283400225b0925b1725b2835b,
    0x03200062000a2000f200182001f200292003830003224062240a2240f224182241f2242922438324,
    0x03240062400a2400f240182401f24029240383400325b0625b0a25b0f25b1825b1f25b2925b3835b,
    0x0225d0925d1725d2835d0227e0927e1727e2837e0125e1635e0127d1637d0033c003600037b5f000,
    0x0325d0625d0a25d0f25d1825d1f25d2925d3835d0327e0627e0a27e0f27e1827e1f27e2927e3837e,
    0x0225e0925e1725e2835e0227d0927d1727d2837d0123c1633c01260163600127b1637b600006e000,
    0x0325e0625e0a25e0f25e1825e1f25e2925e3835e0327d0627d0a27d0f27d1827d1f27d2927d3837d,
    0x0223c0923c1723c2833c022600926017260283600227b0927b1727b2837b61000650006f00085000,
    0x0323c0623c0a23c0f23c1823c1f23c2923c3833c03260062600a2600f260182601f2602926038360,
    0x0327b0627b0a27b0f27b1827b1f27b2927b3837b6200063000660006900070000770008600099000,
    0x0035c003c3003d06400067000680006a0006b0007100074000780007e000870008e0009a000a9000],
   [0x0125c1635c012c3163c3012d0163d0003800038200383003a2003b8003c2003e0003e26c0006d000,
    0x0225c0925c1725c2835c022c3092c3172c3283c3022d0092d0172d0283d001280163800128216382,
    0x0325c0625c0a25c0f25c1825c1f25c2925c3835c032c3062c30a2c30f2c3182c31f2c3292c3383c3,
    0x032d0062d00a2d00f2d0182d01f2d0292d0383d00228009280172802838002282092821728228382,
    0x03280062800a2800f280182801f280292803838003282062820a2820f282182821f2822928238382,
    0x0128316383012a2163a2012b8163b8012c2163c2012e0163e0012e2163e200399003a1003a7003ac,
    0x02283092831728328383022a2092a2172a2283a2022b8092b8172b8283b8022c2092c2172c2283c2,
    0x03283062830a2830f283182831f2832928338383032a2062a20a2a20f2a2182a21f2a2292a2383a2,
    0x032b8062b80a2b80f2b8182b81f2b8292b8383b8032c2062c20a2c20f2c2182c21f2c2292c2383c2,
    0x022e0092e0172e0283e0022e2092e2172e2283e20129916399012a1163a1012a7163a7012ac163ac,
    0x032e0062e00a2e00f2e0182e01f2e0292e0383e0032e2062e20a2e20f2e2182e21f2e2292e2383e2,
    0x02299092991729928399022a1092a1172a1283a1022a7092a7172a7283a7022ac092ac172ac283ac,
    0x03299062990a2990f299182991f2992929938399032a1062a10a2a10f2a1182a11f2a1292a1383a1,
    0x032a7062a70a2a70f2a7182a71f2a7292a7383a7032ac062ac0a2ac0f2ac182ac1f2ac292ac383ac,
    0x72000730007500076000790007b0007f00082000880008b0008f000920009b000a2000aa000b4000,
    0x003b0003b1003b3003d1003d8003d9003e3003e5003e67a0007c0007d00080000810008300084000],
   [0x012b0163b0012b1163b1012b3163b3012d1163d1012d8163d8012d9163d9012e3163e3012e5163e5,
    0x022b0092b0172b0283b0022b1092b1172b1283b1022b3092b3172b3283b3022d1092d1172d1283d1,
    0x032b0062b00a2b00f2b0182b01f2b0292b0383b0032b1062b10a2b10f2b1182b11f2b1292b1383b1,
    0x032b3062b30a2b30f2b3182b31f2b3292b3383b3032d1062d10a2d10f2d1182d11f2d1292d1383d1,
    0x022d8092d8172d8283d8022d9092d9172d9283d9022e3092e3172e3283e3022e5092e5172e5283e5,
    0x032d8062d80a2d80f2d8182d81f2d8292d8383d8032d9062d90a2d90f2d9182d91f2d9292d9383d9,
    0x032e3062e30a2e30f2e3182e31f2e3292e3383e3032e5062e50a2e50f2e5182e51f2e5292e5383e5,
    0x012e6163e60038100384003850038600388003920039a0039c003a0003a3003a4003a9003aa003ad,
    0x022e6092e6172e6283e6012811638101284163840128516385012861638601288163880129216392,
    0x032e6062e60a2e60f2e6182e61f2e6292e6383e60228109281172812838102284092841728428384,
    0x03281062810a2810f281182811f281292813838103284062840a2840f284182841f2842928438384,
    0x02285092851728528385022860928617286283860228809288172882838802292092921729228392,
    0x03285062850a2850f285182851f285292853838503286062860a2860f286182861f2862928638386,
    0x03288062880a2880f288182881f288292883838803292062920a2920f292182921f2922929238392,
    0x0129a1639a0129c1639c012a0163a0012a3163a3012a4163a4012a9163a9012aa163aa012ad163ad,
    0x0229a0929a1729a2839a0229c0929c1729c2839c022a0092a0172a0283a0022a3092a3172a3283a3],
   [0x0329a0629a0a29a0f29a1829a1f29a2929a3839a0329c0629c0a29c0f29c1829c1f29c2929c3839c,
    0x032a0062a00a2a00f2a0182a01f2a0292a0383a0032a3062a30a2a30f2a3182a31f2a3292a3383a3,
    0x022a4092a4172a4283a4022a9092a9172a9283a9022aa092aa172aa283aa022ad092ad172ad283ad,
    0x032a4062a40a2a40f2a4182a41f2a4292a4383a4032a9062a90a2a90f2a9182a91f2a9292a9383a9,
    0x032aa062aa0a2aa0f2aa182aa1f2aa292aa383aa032ad062ad0a2ad0f2ad182ad1f2ad292ad383ad,
    0x890008a0008c0008d000900009100093000960009c0009f000a3000a6000ab000ae000b5000be000,
    0x003b2003b5003b9003ba003bb003bd003be003c4003c6003e4003e8003e994000950009700098000,
    0x012b2163b2012b5163b5012b9163b9012ba163ba012bb163bb012bd163bd012be163be012c4163c4,
    0x022b2092b2172b2283b2022b5092b5172b5283b5022b9092b9172b9283b9022ba092ba172ba283ba,
    0x032b2062b20a2b20f2b2182b21f2b2292b2383b2032b5062b50a2b50f2b5182b51f2b5292b5383b5,
    0x032b9062b90a2b90f2b9182b91f2b9292b9383b9032ba062ba0a2ba0f2ba182ba1f2ba292ba383ba,
    0x022bb092bb172bb283bb022bd092bd172bd283bd022be092be172be283be022c4092c4172c4283c4,
    0x032bb062bb0a2bb0f2bb182bb1f2bb292bb383bb032bd062bd0a2bd0f2bd182bd1f2bd292bd383bd,
    0x032be062be0a2be0f2be182be1f2be292be383be032c4062c40a2c40f2c4182c41f2c4292c4383c4,
    0x012c6163c6012e4163e4012e8163e8012e9163e90030100387003890038a0038b0038c0038d0038f,
    0x022c6092c6172c6283c6022e4092e4172e4283e4022e8092e8172e8283e8022e9092e9172e9283e9],
   [0x032c6062c60a2c60f2c6182c61f2c6292c6383c6032e4062e40a2e40f2e4182e41f2e4292e4383e4,
    0x032e8062e80a2e80f2e8182e81f2e8292e8383e8032e9062e90a2e90f2e9182e91f2e9292e9383e9,
    0x0120116301012871638701289163890128a1638a0128b1638b0128c1638c0128d1638d0128f1638f,
    0x0220109201172012830102287092871728728387022890928917289283890228a0928a1728a2838a,
    0x03201062010a2010f201182011f201292013830103287062870a2870f287182871f2872928738387,
    0x03289062890a2890f289182891f28929289383890328a0628a0a28a0f28a1828a1f28a2928a3838a,
    0x0228b0928b1728b2838b0228c0928c1728c2838c0228d0928d1728d2838d0228f0928f1728f2838f,
    0x0328b0628b0a28b0f28b1828b1f28b2928b3838b0328c0628c0a28c0f28c1828c1f28c2928c3838c,
    0x0328d0628d0a28d0f28d1828d1f28d2928d3838d0328f0628f0a28f0f28f1828f1f28f2928f3838f,
    0x9d0009e000a0000a1000a4000a5000a7000a8000ac000ad000af000b1000b6000b9000bf000cf000,
    0x00393003950039600397003980039b0039d0039e003a5003a6003a8003ae003af003b4003b6003b7,
    0x012931639301295163950129616396012971639701298163980129b1639b0129d1639d0129e1639e,
    0x02293092931729328393022950929517295283950229609296172962839602297092971729728397,
    0x03293062930a2930f293182931f293292933839303295062950a2950f295182951f2952929538395,
    0x03296062960a2960f296182961f296292963839603297062970a2970f297182971f2972929738397,
    0x022980929817298283980229b0929b1729b2839b0229d0929d1729d2839d0229e0929e1729e2839e],
   [0x03298062980a2980f298182981f29829298383980329b0629b0a29b0f29b1829b1f29b2929b3839b,
    0x0329d0629d0a29d0f29d1829d1f29d2929d3839d0329e0629e0a29e0f29e1829e1f29e2929e3839e,
    0x012a5163a5012a6163a6012a8163a8012ae163ae012af163af012b4163b4012b6163b6012b7163b7,
    0x022a5092a5172a5283a5022a6092a6172a6283a6022a8092a8172a8283a8022ae092ae172ae283ae,
    0x032a5062a50a2a50f2a5182a51f2a5292a5383a5032a6062a60a2a60f2a6182a61f2a6292a6383a6,
    0x032a8062a80a2a80f2a8182a81f2a8292a8383a8032ae062ae0a2ae0f2ae182ae1f2ae292ae383ae,
    0x022af092af172af283af022b4092b4172b4283b4022b6092b6172b6283b6022b7092b7172b7283b7,
    0x032af062af0a2af0f2af182af1f2af292af383af032b4062b40a2b40f2b4182b41f2b4292b4383b4,
    0x032b6062b60a2b60f2b6182b61f2b6292b6383b6032b7062b70a2b70f2b7182b71f2b7292b7383b7,
    0x003bc003bf003c5003e7003efb0000b2000b3000b7000b8000ba000bb000c0000c7000d0000df000,
    0x012bc163bc012bf163bf012c5163c5012e7163e7012ef163ef003090038e0039000391003940039f,
    0x022bc092bc172bc283bc022bf092bf172bf283bf022c5092c5172c5283c5022e7092e7172e7283e7,
    0x032bc062bc0a2bc0f2bc182bc1f2bc292bc383bc032bf062bf0a2bf0f2bf182bf1f2bf292bf383bf,
    0x032c5062c50a2c50f2c5182c51f2c5292c5383c5032e7062e70a2e70f2e7182e71f2e7292e7383e7,
    0x022ef092ef172ef283ef01209163090128e1638e0129016390012911639101294163940129f1639f,
    0x032ef062ef0a2ef0f2ef182ef1f2ef292ef383ef022090920917209283090228e0928e1728e2838e],
   [0x03209062090a2090f209182091f20929209383090328e0628e0a28e0f28e1828e1f28e2928e3838e,
    0x0229009290172902839002291092911729128391022940929417294283940229f0929f1729f2839f,
    0x03290062900a2900f290182901f290292903839003291062910a2910f291182911f2912929138391,
    0x03294062940a2940f294182941f29429294383940329f0629f0a29f0f29f1829f1f29f2929f3839f,
    0x003ab003ce003d7003e1003ec003edbc000bd000c1000c4000c8000cb000d1000d8000e0000ee000,
    0x012ab163ab012ce163ce012d7163d7012e1163e1012ec163ec012ed163ed003c7003cf003ea003eb,
    0x022ab092ab172ab283ab022ce092ce172ce283ce022d7092d7172d7283d7022e1092e1172e1283e1,
    0x032ab062ab0a2ab0f2ab182ab1f2ab292ab383ab032ce062ce0a2ce0f2ce182ce1f2ce292ce383ce,
    0x032d7062d70a2d70f2d7182d71f2d7292d7383d7032e1062e10a2e10f2e1182e11f2e1292e1383e1,
    0x022ec092ec172ec283ec022ed092ed172ed283ed012c7163c7012cf163cf012ea163ea012eb163eb,
    0x032ec062ec0a2ec0f2ec182ec1f2ec292ec383ec032ed062ed0a2ed0f2ed182ed1f2ed292ed383ed,
    0x022c7092c7172c7283c7022cf092cf172cf283cf022ea092ea172ea283ea022eb092eb172eb283eb,
    0x032c7062c70a2c70f2c7182c71f2c7292c7383c7032cf062cf0a2cf0f2cf182cf1f2cf292cf383cf,
    0x032ea062ea0a2ea0f2ea182ea1f2ea292ea383ea032eb062eb0a2eb0f2eb182eb1f2eb292eb383eb,
    0xc2000c3000c5000c6000c9000ca000cc000cd000d2000d5000d9000dc000e1000e7000ef000f6000,
    0x003c0003c1003c8003c9003ca003cd003d2003d5003da003db003ee003f0003f2003f3003ffce000],
   [0x012c0163c0012c1163c1012c8163c8012c9163c9012ca163ca012cd163cd012d2163d2012d5163d5,
    0x022c0092c0172c0283c0022c1092c1172c1283c1022c8092c8172c8283c8022c9092c9172c9283c9,
    0x032c0062c00a2c00f2c0182c01f2c0292c0383c0032c1062c10a2c10f2c1182c11f2c1292c1383c1,
    0x032c8062c80a2c80f2c8182c81f2c8292c8383c8032c9062c90a2c90f2c9182c91f2c9292c9383c9,
    0x022ca092ca172ca283ca022cd092cd172cd283cd022d2092d2172d2283d2022d5092d5172d5283d5,
    0x032ca062ca0a2ca0f2ca182ca1f2ca292ca383ca032cd062cd0a2cd0f2cd182cd1f2cd292cd383cd,
    0x032d2062d20a2d20f2d2182d21f2d2292d2383d2032d5062d50a2d50f2d5182d51f2d5292d5383d5,
    0x012da163da012db163db012ee163ee012f0163f0012f2163f2012f3163f3012ff163ff003cb003cc,
    0x022da092da172da283da022db092db172db283db022ee092ee172ee283ee022f0092f0172f0283f0,
    0x032da062da0a2da0f2da182da1f2da292da383da032db062db0a2db0f2db182db1f2db292db383db,
    0x032ee062ee0a2ee0f2ee182ee1f2ee292ee383ee032f0062f00a2f00f2f0182f01f2f0292f0383f0,
    0x022f2092f2172f2283f2022f3092f3172f3283f3022ff092ff172ff283ff012cb163cb012cc163cc,
    0x032f2062f20a2f20f2f2182f21f2f2292f2383f2032f3062f30a2f30f2f3182f31f2f3292f3383f3,
    0x032ff062ff0a2ff0f2ff182ff1f2ff292ff383ff022cb092cb172cb283cb022cc092cc172cc283cc,
    0x032cb062cb0a2cb0f2cb182cb1f2cb292cb383cb032cc062cc0a2cc0f2cc182cc1f2cc292cc383cc,
    0xd3000d4000d6000d7000da000db000dd000de000e2000e4000e8000eb000f0000f3000f7000fa000],
   [0x003d3003d4003d6003dd003de003df003f1003f4003f5003f6003f7003f8003fa003fb003fc003fd,
    0x012d3163d3012d4163d4012d6163d6012dd163dd012de163de012df163df012f1163f1012f4163f4,
    0x022d3092d3172d3283d3022d4092d4172d4283d4022d6092d6172d6283d6022dd092dd172dd283dd,
    0x032d3062d30a2d30f2d3182d31f2d3292d3383d3032d4062d40a2d40f2d4182d41f2d4292d4383d4,
    0x032d6062d60a2d60f2d6182d61f2d6292d6383d6032dd062dd0a2dd0f2dd182dd1f2dd292dd383dd,
    0x022de092de172de283de022df092df172df283df022f1092f1172f1283f1022f4092f4172f4283f4,
    0x032de062de0a2de0f2de182de1f2de292de383de032df062df0a2df0f2df182df1f2df292df383df,
    0x032f1062f10a2f10f2f1182f11f2f1292f1383f1032f4062f40a2f40f2f4182f41f2f4292f4383f4,
    0x012f5163f5012f6163f6012f7163f7012f8163f8012fa163fa012fb163fb012fc163fc012fd163fd,
    0x022f5092f5172f5283f5022f6092f6172f6283f6022f7092f7172f7283f7022f8092f8172f8283f8,
    0x032f5062f50a2f50f2f5182f51f2f5292f5383f5032f6062f60a2f60f2f6182f61f2f6292f6383f6,
    0x032f7062f70a2f70f2f7182f71f2f7292f7383f7032f8062f80a2f80f2f8182f81f2f8292f8383f8,
    0x022fa092fa172fa283fa022fb092fb172fb283fb022fc092fc172fc283fc022fd092fd172fd283fd,
    0x032fa062fa0a2fa0f2fa182fa1f2fa292fa383fa032fb062fb0a2fb0f2fb182fb1f2fb292fb383fb,
    0x032fc062fc0a2fc0f2fc182fc1f2fc292fc383fc032fd062fd0a2fd0f2fd182fd1f2fd292fd383fd,
    0x003fee3000e5000e6000e9000ea000ec000ed000f1000f2000f4000f5000f8000f9000fb000fc000],
   [0x012fe163fe003020030300304003050030600307003080030b0030c0030e0030f003100031100312,
    0x022fe092fe172fe283fe012021630201203163030120416304012051630501206163060120716307,
    0x032fe062fe0a2fe0f2fe182fe1f2fe292fe383fe0220209202172022830202203092031720328303,
    0x03202062020a2020f202182021f202292023830203203062030a2030f203182031f2032920338303,
    0x02204092041720428304022050920517205283050220609206172062830602207092071720728307,
    0x03204062040a2040f204182041f204292043830403205062050a2050f205182051f2052920538305,
    0x03206062060a2060f206182061f206292063830603207062070a2070f207182071f2072920738307,
    0x01208163080120b1630b0120c1630c0120e1630e0120f1630f012101631001211163110121216312,
    0x022080920817208283080220b0920b1720b2830b0220c0920c1720c2830c0220e0920e1720e2830e,
    0x03208062080a2080f208182081f20829208383080320b0620b0a20b0f20b1820b1f20b2920b3830b,
    0x0320c0620c0a20c0f20c1820c1f20c2920c3830c0320e0620e0a20e0f20e1820e1f20e2920e3830e,
    0x0220f0920f1720f2830f022100921017210283100221109211172112831102212092121721228312,
    0x0320f0620f0a20f0f20f1820f1f20f2920f3830f03210062100a2100f210182101f2102921038310,
    0x03211062110a2110f211182111f211292113831103212062120a2120f212182121f2122921238312,
    0x0031300314003150031700318003190031a0031b0031c0031d0031e0031f0037f003dc003f9fd000,
    0x0121316313012141631401215163150121716317012181631801219163190121a1631a0121b1631b],
   [0x02213092131721328313022140921417214283140221509215172152831502217092171721728317,
    0x03213062130a2130f213182131f213292133831303214062140a2140f214182141f2142921438314,
    0x03215062150a2150f215182151f215292153831503217062170a2170f217182171f2172921738317,
    0x02218092181721828318022190921917219283190221a0921a1721a2831a0221b0921b1721b2831b,
    0x03218062180a2180f218182181f218292183831803219062190a2190f219182191f2192921938319,
    0x0321a0621a0a21a0f21a1821a1f21a2921a3831a0321b0621b0a21b0f21b1821b1f21b2921b3831b,
    0x0121c1631c0121d1631d0121e1631e0121f1631f0127f1637f012dc163dc012f9163f9fe000ff000,
    0x0221c0921c1721c2831c0221d0921d1721d2831d0221e0921e1721e2831e0221f0921f1721f2831f,
    0x0321c0621c0a21c0f21c1821c1f21c2921c3831c0321d0621d0a21d0f21d1821d1f21d2921d3831d,
    0x0321e0621e0a21e0f21e1821e1f21e2921e3831e0321f0621f0a21f0f21f1821f1f21f2921f3831f,
    0x0227f0927f1727f2837f022dc092dc172dc283dc022f9092f9172f9283f90030a0030d0031600400,
    0x0327f0627f0a27f0f27f1827f1f27f2927f3837f032dc062dc0a2dc0f2dc182dc1f2dc292dc383dc,
    0x032f9062f90a2f90f2f9182f91f2f9292f9383f90120a1630a0120d1630d01216163160040000400,
    0x0220a0920a1720a2830a0220d0920d1720d2830d0221609216172162831600400004000040000400,
    0x0320a0620a0a20a0f20a1820a1f20a2920a3830a0320d0620d0a20d0f20d1820d1f20d2920d3830d,
    0x03216062160a2160f216182161f21629216383160040000400004000040000400004000040000400]]

end ZincioHttp.Hpack.Huffman
